import LiveQuery.Proofs.Tables
import LiveQuery.Subscription

/-!
# The table of subscriptions

What each operation on the subscriptions does to the entry of one number, and to
the outbox. A subscription is entered under its own number, and numbers are given
out in increasing order, so a new number has no entry yet. Everything said about
runs of these operations rests on the laws below and opens no operation again.
-/

namespace LiveQuery

/-- What an answer of the server can make of an entry that stays. -/
structure Subscription.Wanes (sub next : Subscription) : Prop where
  id : next.id = sub.id
  listening : next.listening = sub.listening
  active : next.isActive = true → sub.isActive = true
  current : next.current = true → sub.current = true ∧ next.isActive = sub.isActive

namespace Subscriptions

open Std

/-- Every subscription is entered under its own number, which was given out before. -/
def Numbered (s : Subscriptions) : Prop :=
  ∀ (id : TargetId) (sub : Subscription), s.table[id]? = some sub →
    sub.id = id ∧ id.val < s.nextId

/-- A number that was not given out has no entry. -/
theorem Numbered.unused {s : Subscriptions} (numbered : s.Numbered) :
    s.table[TargetId.mk s.nextId]? = none := by
  cases found : s.table[TargetId.mk s.nextId]? with
  | none => rfl
  | some sub => exact absurd (numbered _ _ found).2 (Nat.lt_irrefl _)

@[simp] theorem table_put (s : Subscriptions) (sub : Subscription) (id : TargetId) :
    (s.put sub).table[id]? = if sub.id = id then some sub else s.table[id]? := by
  simp [put, ExtTreeMap.getElem?_insert]

@[simp] theorem outbox_put (s : Subscriptions) (sub : Subscription) :
    (s.put sub).outbox = s.outbox := rfl

@[simp] theorem nextId_put (s : Subscriptions) (sub : Subscription) :
    (s.put sub).nextId = s.nextId := rfl

@[simp] theorem streamOpen_put (s : Subscriptions) (sub : Subscription) :
    (s.put sub).streamOpen = s.streamOpen := rfl

/-- A released number has no entry, whether or not it had one before. -/
@[simp] theorem table_release (s : Subscriptions) (released id : TargetId) :
    (s.release released).table[id]? = if released = id then none else s.table[id]? := by
  unfold release
  split
  case h_1 gone =>
    split
    case isTrue same => rw [← same, gone]
    case isFalse => rfl
  case h_2 => simp [ExtTreeMap.getElem?_erase]

@[simp] theorem outbox_release (s : Subscriptions) (id : TargetId) :
    (s.release id).outbox = s.outbox := by
  unfold release
  split <;> rfl

@[simp] theorem nextId_release (s : Subscriptions) (id : TargetId) :
    (s.release id).nextId = s.nextId := by
  unfold release
  split <;> rfl

@[simp] theorem streamOpen_release (s : Subscriptions) (id : TargetId) :
    (s.release id).streamOpen = s.streamOpen := by
  unfold release
  split <;> rfl

/-- A started subscription waits for one more answer if there is a stream to ask on. -/
def started (s : Subscriptions) (sub : Subscription) : Subscription :=
  if s.streamOpen then { sub with adds := sub.adds + 1 } else sub

@[simp] theorem id_started (s : Subscriptions) (sub : Subscription) :
    (s.started sub).id = sub.id := by
  unfold started
  split <;> rfl

@[simp] theorem target_started (s : Subscriptions) (sub : Subscription) :
    (s.started sub).target = sub.target := by
  unfold started
  split <;> rfl

@[simp] theorem listening_started (s : Subscriptions) (sub : Subscription) :
    (s.started sub).listening = sub.listening := by
  unfold started
  split <;> rfl

@[simp] theorem current_started (s : Subscriptions) (sub : Subscription) :
    (s.started sub).current = sub.current := by
  unfold started
  split <;> rfl

@[simp] theorem token_started (s : Subscriptions) (sub : Subscription) :
    (s.started sub).token = sub.token := by
  unfold started
  split <;> rfl

@[simp] theorem removes_started (s : Subscriptions) (sub : Subscription) :
    (s.started sub).removes = sub.removes := by
  unfold started
  split <;> rfl

/-- What is started on an open stream awaits its answer. -/
theorem inactive_started {s : Subscriptions} (opened : s.streamOpen = true) (sub : Subscription) :
    (s.started sub).isActive = false := by
  simp [started, opened, Subscription.isActive]

@[simp] theorem table_start (s : Subscriptions) (sub : Subscription) (id : TargetId) :
    (s.start sub).table[id]? = if sub.id = id then some (s.started sub) else s.table[id]? := by
  unfold start started
  split <;> exact table_put s _ id

@[simp] theorem outbox_start (s : Subscriptions) (sub : Subscription) :
    (s.start sub).outbox =
      s.outbox ++ if s.streamOpen then [.add sub.id sub.target sub.token] else [] := by
  unfold start
  split
  · rfl
  · exact (List.append_nil _).symm

@[simp] theorem byName_start (s : Subscriptions) (sub : Subscription) :
    (s.start sub).byName = s.byName := by
  unfold start
  split <;> rfl

@[simp] theorem nextId_start (s : Subscriptions) (sub : Subscription) :
    (s.start sub).nextId = s.nextId := by
  unfold start
  split <;> rfl

@[simp] theorem streamOpen_start (s : Subscriptions) (sub : Subscription) :
    (s.start sub).streamOpen = s.streamOpen := by
  unfold start
  split <;> rfl

/-- The subscription that a new number stands for. -/
def fresh (s : Subscriptions) (t : Target) : Subscription := { id := ⟨s.nextId⟩, target := t }

@[simp] theorem table_subscribe (s : Subscriptions) (t : Target) (id : TargetId) :
    (s.subscribe t).2.table[id]? =
      if TargetId.mk s.nextId = id then some (s.started (s.fresh t)) else s.table[id]? := by
  exact table_start _ _ id

@[simp] theorem outbox_subscribe (s : Subscriptions) (t : Target) :
    (s.subscribe t).2.outbox =
      s.outbox ++ if s.streamOpen then [.add ⟨s.nextId⟩ t none] else [] := by
  exact outbox_start _ _

@[simp] theorem nextId_subscribe (s : Subscriptions) (t : Target) :
    (s.subscribe t).2.nextId = s.nextId + 1 := by
  exact nextId_start _ _

@[simp] theorem streamOpen_subscribe (s : Subscriptions) (t : Target) :
    (s.subscribe t).2.streamOpen = s.streamOpen := by
  exact streamOpen_start _ _

/-- A subscription that is taken up again. An unanswered request to remove it counts no more. -/
def resumed (sub : Subscription) : Subscription :=
  { sub with listening := true, current := false, removes := 0 }

/-- What listening to a target comes to: somebody listens already, or a subscription that nobody
    listens to is taken up again, or the next number is given out. -/
theorem listen_cases {s : Subscriptions} (numbered : s.Numbered) (t : Target) :
    (∃ id sub, s.table[id]? = some sub ∧ sub.listening = true ∧ s.listen t = (id, s)) ∨
      (∃ id sub, s.table[id]? = some sub ∧ sub.listening = false ∧
        s.listen t = (id, s.start (resumed sub))) ∨
      (s.find? t).bind s.get? = none ∧ s.listen t = s.subscribe t := by
  cases known : (s.find? t).bind s.get? with
  | none => exact Or.inr (Or.inr ⟨rfl, by simp [listen, known]⟩)
  | some sub =>
    obtain ⟨id, _, entered⟩ := Option.bind_eq_some_iff.mp known
    have same : sub.id = id := (numbered id sub entered).1
    cases heard : sub.listening with
    | true => exact Or.inl ⟨id, sub, entered, heard, by simp [listen, known, heard, same]⟩
    | false =>
      exact Or.inr (Or.inl ⟨id, sub, entered, heard, by
        simp [listen, known, heard, same, resumed]⟩)

/-- A subscription that nobody listens to any more; one more answer is awaited. -/
def left (sub : Subscription) : Subscription :=
  { sub with listening := false, current := false, removes := sub.removes + 1 }

/-- What the end of listening comes to: nothing if nobody listened, the end of the subscription if
    there is no stream, and else a request to remove it. -/
theorem unlisten_cases (s : Subscriptions) (id : TargetId) :
    (s.unlisten id = s ∧ ∀ sub, s.table[id]? = some sub → sub.listening = false) ∨
      ∃ sub, s.table[id]? = some sub ∧ sub.listening = true ∧
        (s.streamOpen = false ∧ s.unlisten id = s.release id ∨
          s.streamOpen = true ∧
            s.unlisten id = { s.put (left sub) with outbox := s.outbox ++ [.remove id] }) := by
  cases entered : s.table[id]? with
  | none => exact Or.inl ⟨by simp [unlisten, entered], fun _ found => nomatch found⟩
  | some sub =>
    cases heard : sub.listening with
    | false =>
      refine Or.inl ⟨by simp [unlisten, entered, heard], ?_⟩
      intro other found
      rw [← Option.some.inj found, heard]
    | true =>
      refine Or.inr ⟨sub, rfl, heard, ?_⟩
      cases stream : s.streamOpen with
      | false => exact Or.inl ⟨rfl, by simp [unlisten, entered, heard, stream]⟩
      | true => exact Or.inr ⟨rfl, by simp [unlisten, entered, heard, stream, left]⟩

/-- The entry of a number once some numbers are released. -/
theorem table_foldl_release (ids : List TargetId) (s : Subscriptions) (id : TargetId) :
    (ids.foldl release s).table[id]? = if id ∈ ids then none else s.table[id]? := by
  induction ids generalizing s with
  | nil => simp
  | cons first rest ih =>
    rw [List.foldl_cons, ih, table_release]
    by_cases here : first = id
    · simp [here]
    · simp [here, Ne.symm here]

/-- Releasing touches the two tables alone. -/
theorem frame_foldl_release (ids : List TargetId) (s : Subscriptions) :
    (ids.foldl release s).outbox = s.outbox ∧ (ids.foldl release s).nextId = s.nextId ∧
      (ids.foldl release s).streamOpen = s.streamOpen := by
  induction ids generalizing s with
  | nil => exact ⟨rfl, rfl, rfl⟩
  | cons first rest ih => simpa using ih (s.release first)

/-- Without a stream the subscriptions that are listened to stay, with nothing under way. -/
theorem table_streamClosed (s : Subscriptions) (id : TargetId) :
    s.streamClosed.table[id]? =
      (s.table[id]?.filter (·.listening)).map Subscription.settled := by
  simp only [streamClosed, ExtTreeMap.getElem?_map, table_foldl_release, mem_keys_filter]
  cases entered : s.table[id]? with
  | none => simp
  | some sub => cases heard : sub.listening <;> simp [heard, Option.filter]

@[simp] theorem outbox_streamClosed (s : Subscriptions) : s.streamClosed.outbox = [] := by
  exact (frame_foldl_release _ _).1

@[simp] theorem nextId_streamClosed (s : Subscriptions) : s.streamClosed.nextId = s.nextId := by
  exact (frame_foldl_release _ { s with streamOpen := false, outbox := [] }).2.1

@[simp] theorem streamOpen_streamClosed (s : Subscriptions) :
    s.streamClosed.streamOpen = false := by
  exact (frame_foldl_release _ _).2.2

@[simp] theorem table_streamOpened (s : Subscriptions) (id : TargetId) :
    s.streamOpened.table[id]? = s.table[id]?.map Subscription.reopened := by
  simp [streamOpened]

/-- A new stream asks for every entry; the counters that it sets are no part of a request. -/
theorem outbox_streamOpened (s : Subscriptions) :
    s.streamOpened.outbox = (s.table.toList.map (·.2)).map (·.addRequest) := by
  simp only [streamOpened, ExtTreeMap.toList_map, List.map_map]
  rfl

@[simp] theorem table_clearTokens (s : Subscriptions) (id : TargetId) :
    s.clearTokens.table[id]? =
      s.table[id]?.map fun sub => { sub with token := none, version := .start } := by
  simp [clearTokens]

/-- At most the entry of one number differs. -/
structure Edited (s : Subscriptions) (id : TargetId) (entry : Option Subscription)
    (after : Subscriptions) : Prop where
  table : ∀ other, after.table[other]? = if id = other then entry else s.table[other]?
  nextId : s.nextId ≤ after.nextId
  streamOpen : after.streamOpen = s.streamOpen

theorem edited_put (s : Subscriptions) (sub : Subscription) :
    s.Edited sub.id (some sub) (s.put sub) :=
  ⟨s.table_put sub, Nat.le_refl _, rfl⟩

theorem edited_release (s : Subscriptions) (id : TargetId) : s.Edited id none (s.release id) :=
  ⟨s.table_release id, Nat.le_of_eq (s.nextId_release id).symm, s.streamOpen_release id⟩

theorem edited_start (s : Subscriptions) (sub : Subscription) :
    s.Edited sub.id (some (s.started sub)) (s.start sub) :=
  ⟨s.table_start sub, Nat.le_of_eq (s.nextId_start sub).symm, s.streamOpen_start sub⟩

theorem edited_subscribe (s : Subscriptions) (t : Target) :
    s.Edited ⟨s.nextId⟩ (some (s.started (s.fresh t))) (s.subscribe t).2 :=
  ⟨s.table_subscribe t, Nat.le_of_lt (s.nextId_subscribe t ▸ Nat.lt_succ_self _),
    s.streamOpen_subscribe t⟩

theorem edited_self {s : Subscriptions} {id : TargetId} {entry : Option Subscription}
    (entered : s.table[id]? = entry) : s.Edited id entry s := by
  refine ⟨fun other => ?_, Nat.le_refl _, rfl⟩
  split
  case isTrue same => rw [← same, entered]
  case isFalse => rfl

/-- Numbers stay in order if the edited entry keeps its own. -/
theorem Numbered.edited {s after : Subscriptions} (numbered : s.Numbered) {id : TargetId}
    {entry : Option Subscription} (edited : s.Edited id entry after)
    (own : ∀ next, entry = some next → next.id = id ∧ id.val < after.nextId) :
    after.Numbered := by
  intro other sub entered
  rw [edited.table] at entered
  split at entered
  case isTrue same => exact same ▸ own sub entered
  case isFalse =>
    obtain ⟨named, given⟩ := numbered other sub entered
    exact ⟨named, Nat.lt_of_lt_of_le given edited.nextId⟩

/-- Listening leaves an entry that is listened to. Unless it was that before, the entry is new or
    nobody listened to it, and on an open stream it awaits an answer. -/
theorem listen_edited {s : Subscriptions} (numbered : s.Numbered) (t : Target) :
    ∃ next, s.Edited (s.listen t).1 (some next) (s.listen t).2 ∧ next.id = (s.listen t).1 ∧
      next.id.val < (s.listen t).2.nextId ∧ next.listening = true ∧
      (s.table[(s.listen t).1]? = some next ∨
        next.current = false ∧ (s.streamOpen = true → next.isActive = false) ∧
          (∀ sub, s.table[(s.listen t).1]? = some sub → sub.listening = false) ∧
          (s.table[(s.listen t).1]? = none → s.nextId ≤ (s.listen t).1.val)) := by
  rcases listen_cases numbered t with ⟨id, sub, entered, heard, same⟩ |
      ⟨id, sub, entered, unheard, made⟩ | ⟨-, made⟩
  · obtain ⟨named, given⟩ := numbered id sub entered
    rw [same]
    exact ⟨sub, edited_self entered, named, named ▸ given, heard, .inl entered⟩
  · obtain ⟨named, given⟩ := numbered id sub entered
    rw [made]
    refine ⟨s.started (resumed sub), ?_, ?_, ?_, s.listening_started _,
      .inr ⟨s.current_started _, (inactive_started · _), ?_, ?_⟩⟩
    · exact named ▸ s.edited_start (resumed sub)
    · exact (s.id_started _).trans named
    · rw [id_started, nextId_start]
      exact named ▸ given
    · intro other found
      rw [← Option.some.inj (entered.symm.trans found), unheard]
    · exact fun absent => nomatch entered.symm.trans absent
  · have unused : s.table[TargetId.mk s.nextId]? = none := numbered.unused
    rw [made]
    refine ⟨s.started (s.fresh t), s.edited_subscribe t, s.id_started _, ?_,
      s.listening_started _, .inr ⟨s.current_started _, (inactive_started · _), ?_, ?_⟩⟩
    · rw [id_started, nextId_subscribe]
      exact Nat.lt_succ_self _
    · exact fun sub found => nomatch unused.symm.trans found
    · exact fun _ => Nat.le_refl _

/-- After the end of listening the target is gone, or its entry stays and nobody listens to it. -/
theorem unlisten_edited {s : Subscriptions} (numbered : s.Numbered) (id : TargetId) :
    ∃ entry, s.Edited id entry (s.unlisten id) ∧ ∀ next, entry = some next →
      next.listening = false ∧ next.id = id ∧ ∃ sub, s.table[id]? = some sub ∧
        (next = sub ∨ next.current = false) := by
  rcases s.unlisten_cases id with ⟨same, unheard⟩ | ⟨sub, entered, heard, ⟨-, gone⟩ | ⟨-, kept⟩⟩
  · rw [same]
    refine ⟨s.table[id]?, edited_self rfl, fun next entered => ?_⟩
    exact ⟨unheard next entered, (numbered id next entered).1, next, entered, .inl rfl⟩
  · rw [gone]
    exact ⟨none, s.edited_release id, nofun⟩
  · have own : (left sub).id = id := (numbered id sub entered).1
    rw [kept]
    refine ⟨some (left sub), ⟨?_, Nat.le_refl _, rfl⟩, ?_⟩
    · exact own ▸ s.table_put (left sub)
    · rintro next ⟨rfl⟩
      exact ⟨rfl, own, sub, entered, .inr rfl⟩

/-- An accepted addition is one answer less to wait for. -/
theorem added_cases {s after : Subscriptions} {id : TargetId} {outcome : AddOutcome}
    (done : s.added id = .ok (outcome, after)) :
    ∃ sub, s.table[id]? = some sub ∧ sub.adds ≠ 0 ∧
      after = s.put { sub with adds := sub.adds - 1 } := by
  unfold added at done
  split at done
  case h_1 => cases done
  case h_2 sub entered =>
    split at done
    case isTrue => cases done
    case isFalse awaited =>
      obtain ⟨-, rfl⟩ := Prod.mk.inj (Except.ok.inj done)
      exact ⟨sub, entered, awaited, rfl⟩

/-- A removal without a cause releases a target that nobody listens to, or leaves its entry no more
    active and no more current than it was. -/
theorem dropped_cases {s : Subscriptions} {sub : Subscription}
    (entered : s.table[sub.id]? = some sub) :
    (sub.listening = false ∧ s.dropped sub = (.released, s.release sub.id)) ∨
      ∃ outcome after next, s.dropped sub = (outcome, after) ∧
        (∀ status, outcome ≠ .rejected status) ∧ s.Edited sub.id (some next) after ∧
        sub.Wanes next := by
  unfold dropped
  dsimp only
  split
  case isTrue due =>
    split
    case isTrue unneeded =>
      simp only [Bool.and_eq_true, Bool.not_eq_true'] at unneeded
      exact .inl ⟨unneeded.1.1, rfl⟩
    case isFalse =>
      exact .inr ⟨_, _, _, rfl, nofun, s.edited_put { sub with removes := sub.removes - 1 },
        rfl, rfl, id, fun current => ⟨current, rfl⟩⟩
  case isFalse =>
    split
    case isTrue =>
      exact .inr ⟨_, _, _, rfl, nofun, edited_self entered, rfl, rfl, id,
        fun current => ⟨current, rfl⟩⟩
    case isFalse settled =>
      split
      case isFalse unheard => exact .inl ⟨by simpa using unheard, rfl⟩
      case isTrue heard =>
        have active : sub.isActive = true := by
          simp [Subscription.isActive, heard, Nat.eq_zero_of_not_pos settled]
        right
        split
        · let next : Subscription := { sub with current := false, adds := 1 }
          have asked : s.Edited sub.id (some next) (s.putAndAdd next) :=
            ⟨s.table_put next, Nat.le_refl _, rfl⟩
          exact ⟨_, _, _, rfl, nofun, asked, rfl, rfl, fun _ => active, nofun⟩
        · exact ⟨_, _, _, rfl, nofun, s.edited_put { sub with current := false }, rfl, rfl,
            fun _ => active, nofun⟩

/-- A removal releases a target, which is a rejection if there is a cause and somebody listens.
    Without a cause the entry may stay. -/
theorem removed_cases {s after : Subscriptions} (numbered : s.Numbered) {id : TargetId}
    {cause : Option Status} {outcome : RemoveOutcome}
    (done : s.removed id cause = .ok (outcome, after)) :
    ∃ sub, s.table[id]? = some sub ∧
      ((s.Edited id none after ∧
          (sub.listening = false ∧ outcome = .released ∨
            sub.listening = true ∧ ∃ status, cause = some status ∧ outcome = .rejected status)) ∨
        cause = none ∧ (∀ status, outcome ≠ .rejected status) ∧
          ∃ next, s.Edited id (some next) after ∧ sub.Wanes next) := by
  unfold removed at done
  split at done
  case h_1 => cases done
  case h_2 sub status entered =>
    obtain ⟨rfl, rfl⟩ := Prod.mk.inj (Except.ok.inj done)
    refine ⟨sub, entered, .inl ⟨s.edited_release id, ?_⟩⟩
    cases heard : sub.listening with
    | false => exact .inl ⟨rfl, rfl⟩
    | true => exact .inr ⟨rfl, status, rfl, rfl⟩
  case h_3 sub entered =>
    have own : sub.id = id := (numbered id sub entered).1
    refine ⟨sub, entered, ?_⟩
    rw [← own] at entered
    have done : s.dropped sub = (outcome, after) := Except.ok.inj done
    rcases dropped_cases entered with
      ⟨unheard, dropped⟩ | ⟨_, _, next, dropped, plain, edited, wanes⟩
    · obtain ⟨rfl, rfl⟩ := Prod.mk.inj (done.symm.trans dropped)
      exact .inl ⟨own ▸ s.edited_release sub.id, .inl ⟨unheard, rfl⟩⟩
    · obtain ⟨rfl, rfl⟩ := Prod.mk.inj (done.symm.trans dropped)
      exact .inr ⟨rfl, plain, next, own ▸ edited, wanes⟩

/-- An entry after it was marked as current. Only an active one can be. -/
def marked (token : Option ResumeToken) (version : Version) (sub : Subscription) : Subscription :=
  if sub.isActive then { sub with current := true, version, token := token.or sub.token } else sub

theorem edited_markCurrent {s : Subscriptions} (numbered : s.Numbered) (id : TargetId)
    (token : Option ResumeToken) (version : Version) :
    s.Edited id (s.table[id]?.map (marked token version)) (s.markCurrent id token version) := by
  unfold markCurrent
  cases entered : s.table[id]? with
  | none => exact edited_self entered
  | some sub =>
    have own : sub.id = id := (numbered id sub entered).1
    subst own
    simp only [Option.map_some, marked]
    split
    · exact s.edited_put { sub with current := true, version, token := token.or sub.token }
    · exact edited_self entered

end Subscriptions

end LiveQuery
