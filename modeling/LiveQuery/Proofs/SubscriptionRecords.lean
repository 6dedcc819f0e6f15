import LiveQuery.Proofs.SubscriptionNames

/-!
# Records of subscriptions

What the record of a subscription can hold does not depend on the good behaviour of the
server. Whatever is called, and whatever is reported, in part or in vain: at most one
removal is awaited, and none while somebody listens; what is still to be added is not
current; and without a stream every subscription is listened to and awaits nothing.

Each operation edits one entry or treats all of them alike, so it is enough to say what
it makes of a regular entry. A number is given out once. It may become unused again,
and then it stays so; as long as it is used it stands for one target.
-/

namespace LiveQuery

open Std

/-- What a subscription can hold after some calls to listen. -/
structure Subscription.Regular (opened : Bool) (listens : Nat) (sub : Subscription) : Prop where
  /-- There is no subscription that nobody ever asked for. -/
  asked : 0 < listens
  adds : sub.adds ≤ listens
  removes : sub.removes ≤ 1
  wanted : sub.listening = true → sub.removes = 0
  awaiting : 0 < sub.adds → sub.current = false
  /-- Without a stream nothing is under way. -/
  offline : opened = false →
    sub.listening = true ∧ sub.adds = 0 ∧ sub.removes = 0 ∧ sub.current = false

namespace Subscriptions

/-- Every entry is regular, and without a stream nothing is to be written. -/
structure Regular (s : Subscriptions) (listens : Nat) : Prop where
  entry : ∀ (id : TargetId) sub, s.table[id]? = some sub → sub.Regular s.streamOpen listens
  outbox : s.streamOpen = false → s.outbox = []
  nextId : s.nextId ≤ listens + 1

section Regular

variable {s after : Subscriptions} {listens : Nat}

theorem regular_start : Regular {} 0 where
  entry id sub entered := by
    have empty : (∅ : ExtTreeMap TargetId Subscription)[id]? = none := ExtTreeMap.getElem?_empty
    cases empty.symm.trans entered
  outbox _ := rfl
  nextId := Nat.le_refl 1

theorem Regular.mono (regular : s.Regular listens) {more : Nat} (le : listens ≤ more) :
    s.Regular more where
  entry id sub entered :=
    { regular.entry id sub entered with
      asked := Nat.lt_of_lt_of_le (regular.entry id sub entered).asked le
      adds := Nat.le_trans (regular.entry id sub entered).adds le }
  outbox := regular.outbox
  nextId := by
    have before := regular.nextId
    omega

/-- Everything stays regular if the edited entry is. -/
theorem Regular.edited (regular : s.Regular listens) {id : TargetId} {entry : Option Subscription}
    (edited : s.Edited id entry after) (outbox : s.streamOpen = false → after.outbox = [])
    (nextId : after.nextId ≤ listens + 1)
    (own : ∀ next, entry = some next → next.Regular s.streamOpen listens) :
    after.Regular listens where
  entry other sub entered := by
    rw [edited.streamOpen]
    rw [edited.table] at entered
    split at entered
    case isTrue => exact own sub entered
    case isFalse => exact regular.entry other sub entered
  outbox closed := outbox (edited.streamOpen.symm.trans closed)
  nextId := nextId

theorem Regular.put (regular : s.Regular listens) {next : Subscription}
    (own : next.Regular s.streamOpen listens) : (s.put next).Regular listens := by
  refine regular.edited (s.edited_put next) regular.outbox regular.nextId ?_
  rintro _ ⟨rfl⟩
  exact own

theorem Regular.release (regular : s.Regular listens) (id : TargetId) :
    (s.release id).Regular listens := by
  refine regular.edited (s.edited_release id) ?_ ?_ nofun
  · rw [outbox_release]
    exact regular.outbox
  · rw [nextId_release]
    exact regular.nextId

/-- Nothing is asked for without a stream. -/
theorem outbox_start_closed (regular : s.Regular listens) (sub : Subscription)
    (closed : s.streamOpen = false) : (s.start sub).outbox = [] := by
  simp [closed, regular.outbox closed]

theorem regular_listen (numbered : s.Numbered) (regular : s.Regular listens) (t : Target) :
    (s.listen t).2.Regular (listens + 1) := by
  have more := regular.mono (Nat.le_succ listens)
  rcases listen_cases numbered t with ⟨_, _, _, _, same⟩ |
      ⟨id, sub, entered, unheard, made⟩ | ⟨-, made⟩
  · rw [same]
    exact more
  · have own := regular.entry id sub entered
    -- Nobody listened to it, so it waits for its removal, and that takes a stream.
    have opened : s.streamOpen = true := by
      cases stream : s.streamOpen with
      | true => rfl
      | false => cases unheard.symm.trans (own.offline stream).1
    rw [made]
    refine more.edited (s.edited_start (resumed sub)) (outbox_start_closed regular _) ?_ ?_
    · rw [nextId_start]
      exact more.nextId
    · rintro _ ⟨rfl⟩
      have adds := own.adds
      constructor <;> simp [started, resumed, opened, adds]
  · rw [made]
    refine more.edited (s.edited_subscribe t) ?_ ?_ ?_
    · intro closed
      simp [closed, regular.outbox closed]
    · rw [nextId_subscribe]
      exact Nat.succ_le_succ regular.nextId
    · rintro _ ⟨rfl⟩
      cases opened : s.streamOpen <;> constructor <;> simp [started, fresh, opened]

theorem regular_unlisten (regular : s.Regular listens) (id : TargetId) :
    (s.unlisten id).Regular listens := by
  rcases s.unlisten_cases id with ⟨same, -⟩ | ⟨sub, entered, heard, ⟨-, gone⟩ | ⟨opened, kept⟩⟩
  · rw [same]
    exact regular
  · rw [gone]
    exact regular.release id
  · have own := regular.entry id sub entered
    have put : (s.put (left sub)).Regular listens := by
      refine regular.put ⟨own.asked, own.adds, ?_, ?_, fun _ => rfl, ?_⟩
      · simp [left, own.wanted heard]
      · simp [left]
      · simp [opened]
    rw [kept]
    exact ⟨put.entry, by simp [opened], put.nextId⟩

/-- An answer that is no longer awaited. -/
theorem regular_answered (regular : s.Regular listens) {id : TargetId} {sub : Subscription}
    (entered : s.table[id]? = some sub) :
    (s.put { sub with adds := sub.adds - 1 }).Regular listens := by
  have own := regular.entry id sub entered
  refine regular.put ⟨own.asked, ?_, own.removes, own.wanted, ?_, ?_⟩
  · exact Nat.le_trans (Nat.sub_le _ 1) own.adds
  · exact fun more => own.awaiting (Nat.lt_of_lt_of_le more (Nat.sub_le _ 1))
  · intro closed
    obtain ⟨heard, settled, unremoved, idle⟩ := own.offline closed
    exact ⟨heard, by simp [settled], unremoved, idle⟩

/-- A removal without a cause takes an awaited removal off, asks anew, or releases the target. -/
theorem regular_dropped (regular : s.Regular listens) {sub : Subscription}
    (entered : s.table[sub.id]? = some sub) : (s.dropped sub).2.Regular listens := by
  have own := regular.entry sub.id sub entered
  unfold dropped
  dsimp only
  split
  case isTrue due =>
    split
    case isTrue => exact regular.release sub.id
    case isFalse =>
      refine regular.put ⟨own.asked, own.adds, ?_, ?_, own.awaiting, ?_⟩
      · exact Nat.le_trans (Nat.sub_le _ 1) own.removes
      · exact fun heard => by simp [own.wanted heard]
      · intro closed
        exact absurd (own.offline closed).2.2.1 (Nat.ne_of_gt due)
  case isFalse settled =>
    split
    case isTrue => exact regular
    case isFalse =>
      split
      case isFalse => exact regular.release sub.id
      case isTrue heard =>
        split
        case isTrue opened =>
          let next : Subscription := { sub with current := false, adds := 1 }
          have put : (s.put next).Regular listens := by
            refine regular.put ⟨own.asked, own.asked, own.removes, own.wanted, fun _ => rfl, ?_⟩
            simp [opened]
          exact ⟨put.entry, by simp [putAndAdd, opened], put.nextId⟩
        case isFalse =>
          refine regular.put ⟨own.asked, own.adds, own.removes, own.wanted, fun _ => rfl, ?_⟩
          intro closed
          obtain ⟨heard, added, removed, -⟩ := own.offline closed
          exact ⟨heard, added, removed, rfl⟩

theorem regular_removed (numbered : s.Numbered) (regular : s.Regular listens) {id : TargetId}
    {cause : Option Status} {outcome : RemoveOutcome}
    (done : s.removed id cause = .ok (outcome, after)) : after.Regular listens := by
  unfold removed at done
  split at done
  case h_1 => cases done
  case h_2 =>
    obtain ⟨-, rfl⟩ := Prod.mk.inj (Except.ok.inj done)
    exact regular.release id
  case h_3 sub entered =>
    obtain rfl := (numbered id sub entered).1
    have dropped := regular_dropped regular entered
    rw [Except.ok.inj done] at dropped
    exact dropped

/-- What is marked awaits nothing. -/
theorem regular_markCurrent (opened : s.streamOpen = true) (regular : s.Regular listens)
    (id : TargetId) (token : Option ResumeToken) (version : Version) :
    (s.markCurrent id token version).Regular listens := by
  unfold markCurrent
  split
  case h_1 => exact regular
  case h_2 sub entered =>
    have own := regular.entry id sub entered
    split
    case isFalse => exact regular
    case isTrue active =>
      have answered : sub.adds = 0 := by
        simpa using (Bool.and_eq_true_iff.mp active).2
      refine regular.put ⟨own.asked, own.adds, own.removes, own.wanted, ?_, ?_⟩
      · exact fun awaited => absurd answered (Nat.ne_of_gt awaited)
      · simp [opened]

theorem regular_foldl_markCurrent (opened : s.streamOpen = true) (regular : s.Regular listens)
    (version : Version) (changes : List (TargetId × TargetChange)) :
    (changes.foldl (fun subs (id, change) =>
      if change.current then subs.markCurrent id change.token version else subs) s).Regular
        listens := by
  induction changes generalizing s with
  | nil => exact regular
  | cons first rest ih =>
    obtain ⟨id, change⟩ := first
    rw [List.foldl_cons]
    dsimp only
    split
    case isFalse => exact ih opened regular
    case isTrue =>
      refine ih ?_ (regular_markCurrent opened regular id change.token version)
      unfold markCurrent
      split
      · exact opened
      · split <;> exact opened

theorem regular_foldl_release (regular : s.Regular listens) (ids : List TargetId) :
    (ids.foldl Subscriptions.release s).Regular listens := by
  induction ids generalizing s with
  | nil => exact regular
  | cons id rest ih => exact ih (regular.release id)

/-- A new stream starts with one addition for each entry. -/
theorem regular_streamOpened (regular : s.Regular listens) : s.streamOpened.Regular listens where
  entry id sub entered := by
    rw [table_streamOpened, Option.map_eq_some_iff] at entered
    obtain ⟨old, there, rfl⟩ := entered
    have asked := (regular.entry id old there).asked
    exact ⟨asked, asked, Nat.zero_le 1, fun _ => rfl, fun _ => rfl, nofun⟩
  outbox := nofun
  nextId := regular.nextId

/-- Without a stream only what is listened to is left, and it awaits nothing. -/
theorem regular_streamClosed (regular : s.Regular listens) : s.streamClosed.Regular listens where
  entry id sub entered := by
    rw [table_streamClosed, Option.map_eq_some_iff] at entered
    obtain ⟨old, kept, rfl⟩ := entered
    obtain ⟨there, heard⟩ := Option.filter_eq_some_iff.mp kept
    have asked := (regular.entry id old there).asked
    exact ⟨asked, Nat.zero_le _, Nat.zero_le 1, fun _ => rfl, nofun,
      fun _ => ⟨heard, rfl, rfl, rfl⟩⟩
  outbox _ := s.outbox_streamClosed
  nextId := by
    rw [nextId_streamClosed]
    exact regular.nextId

theorem regular_clearTokens (regular : s.Regular listens) : s.clearTokens.Regular listens where
  entry id sub entered := by
    rw [table_clearTokens, Option.map_eq_some_iff] at entered
    obtain ⟨old, there, rfl⟩ := entered
    have own := regular.entry id old there
    exact ⟨own.asked, own.adds, own.removes, own.wanted, own.awaiting, own.offline⟩
  outbox := regular.outbox
  nextId := regular.nextId

end Regular

/-- What was given out stays with its target, and once it is gone nothing has its number again. -/
structure Lasts (s after : Subscriptions) : Prop where
  retires : s.Retires after
  target : ∀ (id : TargetId) sub next, s.table[id]? = some sub → after.table[id]? = some next →
    next.target = sub.target

theorem Lasts.refl (s : Subscriptions) : s.Lasts s where
  retires := .refl s
  target id sub next entered there := by
    rw [Option.some.inj (entered.symm.trans there)]

theorem Lasts.trans {s middle after : Subscriptions} (numbered : s.Numbered)
    (first : s.Lasts middle) (second : middle.Lasts after) : s.Lasts after where
  retires := first.retires.trans second.retires
  target id sub next entered there := by
    cases between : middle.table[id]? with
    | none =>
      have given := Nat.lt_of_lt_of_le (numbered id sub entered).2 first.retires.nextId
      cases there.symm.trans (second.retires.gone id between given)
    | some kept =>
      exact (second.target id kept next between there).trans
        (first.target id sub kept entered between)

/-- An entry that is there afterwards is for the target that it was for before. -/
theorem Thins.target {s after : Subscriptions} (thins : s.Thins after) {id : TargetId}
    {sub next : Subscription} (entered : s.table[id]? = some sub)
    (there : after.table[id]? = some next) : next.target = sub.target := by
  obtain ⟨old, before, -, same, -⟩ := thins.entry id next there
  rw [same, Option.some.inj (entered.symm.trans before)]

/-- A new entry has a number that no entry had. -/
theorem target_listen {s : Subscriptions} (numbered : s.Numbered) (t : Target) {id : TargetId}
    {sub next : Subscription} (entered : s.table[id]? = some sub)
    (there : (s.listen t).2.table[id]? = some next) : next.target = sub.target := by
  rcases entry_listen numbered t there with ⟨old, before, same, -⟩ | ⟨-, rfl, -⟩
  · rw [same, Option.some.inj (entered.symm.trans before)]
  · cases numbered.unused.symm.trans entered

/-- What listening gives is in use already, or it was never given out. -/
theorem nextId_le_of_unused {s : Subscriptions} (numbered : s.Numbered) {t : Target}
    (unused : s.table[(s.listen t).1]? = none) : s.nextId ≤ (s.listen t).1.val := by
  obtain ⟨next, -, -, -, -, entered | ⟨-, -, -, beyond⟩⟩ := listen_edited numbered t
  · cases unused.symm.trans entered
  · exact beyond unused

end Subscriptions

/-- What can be done with a stream. -/
inductive StreamCall where
  | connect
  | opened (now : Duration)
  | closed (error : Option StreamError) (now : Duration)
  | disconnect
  | restart
  | listen (target : Target)
  | unlisten (id : TargetId)
  | takeOutbox
  | receive (change : WatchChange)

/-- Whether the call listens to a target. -/
def StreamCall.isListen : StreamCall → Bool
  | .listen _ => true
  | _ => false

namespace WatchStream

/-- The stream after a call. A call that is refused leaves what it has done until then. -/
def perform (s : WatchStream) : StreamCall → WatchStream
  | .connect => s.connect?.getD s
  | .opened now => s.opened now
  | .closed error now => (s.closed error now).2
  | .disconnect => s.disconnect
  | .restart => s.restart
  | .listen t => (s.listen t).2
  | .unlisten id => s.unlisten id
  | .takeOutbox => s.takeOutbox.2
  | .receive change => (s.receive change).1

/-- Calls in order. -/
def run (s : WatchStream) (calls : List StreamCall) : WatchStream := calls.foldl perform s

section Calls

variable {s : WatchStream} {listens : Nat}

/-- A call is a turn or a report, or it has no effect. -/
theorem perform_cases (s : WatchStream) (call : StreamCall) :
    s.perform call = s ∨ s.Turn (s.perform call) ∨
      ∃ change, s.perform call = (s.receive change).1 := by
  cases call with
  | connect =>
    cases asked : s.connect? with
    | none => exact .inl (by rw [perform, asked, Option.getD_none])
    | some after =>
      refine .inr (.inl ?_)
      rw [perform, asked, Option.getD_some]
      exact .connect asked
  | opened now => exact .inr (.inl (.opened s now))
  | closed error now => exact .inr (.inl (.closed s error now))
  | disconnect => exact .inr (.inl (.disconnect s))
  | restart => exact .inr (.inl (.restart s))
  | listen t => exact .inr (.inl (.listen s t))
  | unlisten id => exact .inr (.inl (.unlisten s id))
  | takeOutbox => exact .inr (.inl (.takeOutbox s))
  | receive change => exact .inr (.inr ⟨change, rfl⟩)

theorem sound_perform (sound : s.Sound) (call : StreamCall) :
    (s.perform call).Sound ∧ s.subscriptions.Retires (s.perform call).subscriptions := by
  rcases s.perform_cases call with same | turn | ⟨change, same⟩
  · rw [same]
    exact ⟨sound, .refl _⟩
  · obtain ⟨sound', fades⟩ := turn.fades sound
    exact ⟨sound', fades.retires⟩
  · obtain ⟨sound', gains⟩ := gains_receive sound change
    rw [same]
    exact ⟨sound', gains.retires⟩

/-- Only listening enters a target. -/
theorem thins_perform (sound : s.Sound) {call : StreamCall} (quiet : call.isListen = false) :
    s.Thins (s.perform call) := by
  cases call with
  | connect =>
    change s.Thins (s.connect?.getD s)
    unfold connect?
    split <;> exact Subscriptions.Thins.refl s.subscriptions
  | opened now => exact s.thins_opened now
  | closed error now => exact s.thins_closed error now
  | disconnect => exact s.thins_disconnect
  | restart => exact s.thins_restart
  | listen t => cases quiet
  | unlisten id => exact Subscriptions.thins_unlisten sound.numbered id
  | takeOutbox =>
    change s.Thins s.takeOutbox.2
    unfold WatchStream.takeOutbox
    split
    · exact Subscriptions.thins_of_tables rfl rfl rfl
    · exact Subscriptions.Thins.refl s.subscriptions
  | receive change => exact thins_receive sound change

theorem named_perform (sound : s.Sound) (named : s.subscriptions.Named) (call : StreamCall) :
    (s.perform call).subscriptions.Named := by
  cases listens : call.isListen with
  | false => exact (thins_perform sound listens).named named
  | true =>
    cases call with
    | listen t => exact Subscriptions.named_listen sound.numbered named t
    | _ => cases listens

theorem lasts_perform (sound : s.Sound) (call : StreamCall) :
    s.subscriptions.Lasts (s.perform call).subscriptions := by
  refine ⟨(sound_perform sound call).2, fun id sub next entered there => ?_⟩
  cases listens : call.isListen with
  | false => exact (thins_perform sound listens).target entered there
  | true =>
    cases call with
    | listen t => exact Subscriptions.target_listen sound.numbered t entered there
    | _ => cases listens

theorem regular_shut (regular : s.subscriptions.Regular listens) :
    s.shut.subscriptions.Regular listens := Subscriptions.regular_streamClosed regular

/-- Answers are taken in up to the first that does not fit. -/
theorem regular_targetsAdded (ids : List TargetId) (regular : s.subscriptions.Regular listens) :
    (targetsAdded ids s).1.subscriptions.Regular listens := by
  induction ids generalizing s with
  | nil => exact regular
  | cons id rest ih =>
    unfold targetsAdded
    cases done : s.targetAdded id with
    | error fault => exact regular
    | ok next =>
      obtain ⟨sub, collected, entered, -, rfl, -⟩ := targetAdded_cases done
      exact ih (Subscriptions.regular_answered regular entered)

theorem regular_targetsRemoved (cause : Option Status) (ids : List TargetId) (sound : s.Sound)
    (regular : s.subscriptions.Regular listens) :
    (targetsRemoved cause ids s).1.subscriptions.Regular listens := by
  induction ids generalizing s with
  | nil => exact regular
  | cons id rest ih =>
    unfold targetsRemoved
    cases done : s.targetRemoved cause id with
    | error fault => exact regular
    | ok result =>
      obtain ⟨rejections, next⟩ := result
      refine ih (fades_targetRemoved sound done).1 ?_
      unfold targetRemoved at done
      cases answered : s.subscriptions.removed id cause with
      | error fault =>
        rw [answered] at done
        cases done
      | ok answer =>
        rw [answered] at done
        obtain ⟨-, rfl⟩ := Prod.mk.inj (Except.ok.inj done)
        exact Subscriptions.regular_removed sound.numbered regular answered

/-- Whatever is reported, fitting or not, the records stay regular. -/
theorem regular_receive (sound : s.Sound) (regular : s.subscriptions.Regular listens)
    (change : WatchChange) : (s.receive change).1.subscriptions.Regular listens := by
  unfold receive
  split
  case isTrue => exact regular
  case isFalse opened =>
    have opened : s.state = .opened := Decidable.not_not.mp opened
    cases change <;> dsimp only
    case targetAdded ids => exact regular_targetsAdded ids regular
    case targetRemoved ids cause => exact regular_targetsRemoved cause ids sound regular
    case documentChanged => exact regular
    case current =>
      split
      · exact regular
      · split <;> exact regular
    case snapshot version =>
      exact Subscriptions.regular_foldl_markCurrent (sound.opened.mpr opened) regular version _

/-- Only a call to listen can ask for more. -/
theorem regular_perform (sound : s.Sound) (regular : s.subscriptions.Regular listens)
    (call : StreamCall) :
    (s.perform call).subscriptions.Regular (listens + if call.isListen then 1 else 0) := by
  cases call with
  | connect =>
    change (s.connect?.getD s).subscriptions.Regular listens
    unfold connect?
    split <;> exact regular
  | opened now =>
    change (s.opened now).subscriptions.Regular listens
    unfold WatchStream.opened
    split
    · exact regular
    · exact Subscriptions.regular_streamOpened regular
  | closed error now =>
    change (s.closed error now).2.subscriptions.Regular listens
    rw [closed_eq]
    exact regular_shut (Subscriptions.regular_foldl_release regular _)
  | disconnect =>
    change s.disconnect.subscriptions.Regular listens
    unfold WatchStream.disconnect
    split
    · exact regular_shut regular
    · exact regular
  | restart => exact regular_shut (Subscriptions.regular_clearTokens regular)
  | listen t => exact Subscriptions.regular_listen sound.numbered regular t
  | unlisten id => exact Subscriptions.regular_unlisten regular id
  | takeOutbox =>
    change s.takeOutbox.2.subscriptions.Regular listens
    unfold WatchStream.takeOutbox
    split
    · exact ⟨regular.entry, fun _ => rfl, regular.nextId⟩
    · exact regular
  | receive change => exact regular_receive sound regular change

/-- What every call keeps. -/
structure Recorded (listens : Nat) (s : WatchStream) : Prop where
  sound : s.Sound
  named : s.subscriptions.Named
  regular : s.subscriptions.Regular listens

theorem recorded_ofConfig (config : BackoffConfig) : Recorded 0 (ofConfig config) where
  sound := sound_ofConfig config
  named name id := by
    have unknown : (ofConfig config).subscriptions.byName[name]? = none :=
      ExtTreeMap.getElem?_empty
    have absent : (ofConfig config).subscriptions.table[id]? = none := ExtTreeMap.getElem?_empty
    simp [unknown, absent, Subscriptions.nameOf]
  regular := Subscriptions.regular_start

theorem Recorded.perform (recorded : Recorded listens s) (call : StreamCall) :
    Recorded (listens + if call.isListen then 1 else 0) (s.perform call) where
  sound := (sound_perform recorded.sound call).1
  named := named_perform recorded.sound recorded.named call
  regular := regular_perform recorded.sound recorded.regular call

theorem Recorded.run (recorded : Recorded listens s) (calls : List StreamCall) :
    Recorded (listens + calls.countP (·.isListen)) (s.run calls) := by
  induction calls generalizing s listens with
  | nil => exact recorded
  | cons call rest ih =>
    rw [List.countP_cons, Nat.add_comm (rest.countP _), ← Nat.add_assoc]
    exact ih (recorded.perform call)

theorem lasts_run (recorded : Recorded listens s) (calls : List StreamCall) :
    s.subscriptions.Lasts (s.run calls).subscriptions := by
  induction calls generalizing s listens with
  | nil => exact .refl _
  | cons call rest ih =>
    exact (lasts_perform recorded.sound call).trans recorded.sound.numbered
      (ih (recorded.perform call))

/-- Later calls come after those at the front. -/
theorem lasts_of_front {config : BackoffConfig} {early calls : List StreamCall}
    (front : early <+: calls) :
    ((ofConfig config).run early).subscriptions.Lasts
      ((ofConfig config).run calls).subscriptions := by
  obtain ⟨rest, rfl⟩ := front
  have later : (ofConfig config).run (early ++ rest) = ((ofConfig config).run early).run rest :=
    List.foldl_append
  rw [later]
  exact lasts_run ((recorded_ofConfig config).run early) rest

/-- After any calls on a new stream, refused and half-done reports among them: the known names are
    those of the entries, each with the number of its entry, and no two entries share one. A number
    that was ever in use lies below the next one; if it is in use now it was so all along, for the
    same target, and else listening does not give it out again. At most one removal is awaited, and
    none while somebody listens; what awaits an addition is not current. Unless the stream is open
    everything is listened to, awaits nothing and is not current, and nothing is to be written. And
    no number given out and no counter exceeds the number of calls to listen. -/
theorem subscriptions_stay_regular (config : BackoffConfig) (calls : List StreamCall) :
    let after (calls : List StreamCall) : Subscriptions :=
      ((ofConfig config).run calls).subscriptions
    let s := after calls
    let listens := calls.countP (·.isListen)
    (∀ (name : String) (id : TargetId), s.byName[name]? = some id ↔
        ∃ sub, s.table[id]? = some sub ∧ sub.target.canonicalId = name) ∧
      (∀ (id other : TargetId) sub same, s.table[id]? = some sub → s.table[other]? = some same →
        same.target.canonicalId = sub.target.canonicalId → other = id) ∧
      (∀ early, early <+: calls → ∀ (id : TargetId) sub, (after early).table[id]? = some sub →
        id.val < s.nextId ∧
          (∀ next, s.table[id]? = some next → next.target = sub.target ∧
            ∀ middle, early <+: middle → middle <+: calls → (after middle).contains id = true) ∧
          (s.contains id = false → ∀ t, (s.listen t).1 ≠ id)) ∧
      (∀ (id : TargetId) sub, s.table[id]? = some sub → sub.id = id ∧ sub.removes ≤ 1 ∧
        (sub.listening = true → sub.removes = 0) ∧ (0 < sub.adds → sub.current = false)) ∧
      (((ofConfig config).run calls).state ≠ .opened → s.outbox = [] ∧
        ∀ (id : TargetId) sub, s.table[id]? = some sub →
          sub.listening = true ∧ sub.adds = 0 ∧ sub.removes = 0 ∧ sub.current = false) ∧
      s.nextId ≤ listens + 1 ∧
        ∀ (id : TargetId) sub, s.table[id]? = some sub → id.val ≤ listens ∧ sub.adds ≤ listens := by
  intro after s listens
  have recorded : Recorded listens ((ofConfig config).run calls) := by
    simpa only [Nat.zero_add] using (recorded_ofConfig config).run calls
  obtain ⟨sound, named, regular⟩ := recorded
  have numbered : s.Numbered := sound.numbered
  refine ⟨fun name id => ?_, ?_, ?_, ?_, fun unopened => ?_, regular.nextId, ?_⟩
  · exact (named name id).trans Option.map_eq_some_iff
  · intro id other sub same entered there shared
    apply named.unique (Subscriptions.nameOf_of_entered there)
    rw [shared]
    exact Subscriptions.nameOf_of_entered entered
  · intro early front id sub entered
    have lasts : (after early).Lasts s := lasts_of_front front
    have given : id.val < (after early).nextId :=
      ((recorded_ofConfig config).run early).sound.numbered id sub entered |>.2
    have below : id.val < s.nextId := Nat.lt_of_lt_of_le given lasts.retires.nextId
    refine ⟨below, fun next there => ⟨lasts.target id sub next entered there, ?_⟩, ?_⟩
    · intro middle first rest
      have half : (after early).Retires (after middle) := (lasts_of_front first).retires
      have later : (after middle).Retires s := (lasts_of_front rest).retires
      rw [Subscriptions.contains, ExtTreeMap.contains_eq_isSome_getElem?]
      cases between : (after middle).table[id]? with
      | some => rfl
      | none =>
        have absent := later.gone id between (Nat.lt_of_lt_of_le given half.nextId)
        cases there.symm.trans absent
    · rintro gone t rfl
      rw [Subscriptions.contains, ExtTreeMap.contains_eq_isSome_getElem?,
        Option.isSome_eq_false_iff, Option.isNone_iff_eq_none] at gone
      have beyond := Subscriptions.nextId_le_of_unused numbered gone
      omega
  · intro id sub entered
    have own := regular.entry id sub entered
    exact ⟨(numbered id sub entered).1, own.removes, own.wanted, own.awaiting⟩
  · have closed : s.streamOpen = false := by
      rw [Bool.eq_false_iff]
      exact mt sound.opened.mp unopened
    refine ⟨regular.outbox closed, fun id sub entered => ?_⟩
    exact (regular.entry id sub entered).offline closed
  · intro id sub entered
    have below := (numbered id sub entered).2
    have given : s.nextId ≤ listens + 1 := regular.nextId
    exact ⟨by omega, (regular.entry id sub entered).adds⟩

/-- The one subscription is refused in a report that then breaks on an unknown number. -/
def brokenOff : List StreamCall :=
  [.opened .zero, .listen (.query (Query.ofPath "c"))] ++
    [.receive (.targetRemoved [⟨1⟩, ⟨9⟩] (some ⟨.permissionDenied, ""⟩))]

/-- Its number is not given out again, not even for its own target. -/
theorem broken_removal_uses_up_number :
    let s := ((ofConfig .immediate).run brokenOff).subscriptions
    s.contains ⟨1⟩ = false ∧ ∀ t, (s.listen t).1 ≠ ⟨1⟩ := by
  intro s
  obtain ⟨-, -, lasting, -⟩ := subscriptions_stay_regular .immediate brokenOff
  have gone : s.contains ⟨1⟩ = false := by decide +kernel
  have known : ((ofConfig .immediate).run (brokenOff.take 2)).subscriptions.table[
      (⟨1⟩ : TargetId)]?.isSome = true := by decide +kernel
  obtain ⟨sub, entered⟩ := Option.isSome_iff_exists.mp known
  obtain ⟨-, -, retired⟩ := lasting _ (List.take_prefix 2 brokenOff) ⟨1⟩ sub entered
  exact ⟨gone, retired gone⟩

end Calls

end WatchStream

end LiveQuery
