import LiveQuery.Proofs.ReportWords

/-!
# Spans between snapshots

A log of a stream lists its calls, the latest first, with the stream before and
after each. Reports are collected from the opening of a stream or the last snapshot
on. What was said of a target counts from the last report on that names it, and a
target is to be wiped if it became active in the span while it had nothing to resume
from.

A report that adds or removes targets leaves each of them either inactive or newly
active. For removals this is because whoever is listened to awaits no removal: a
request to remove that is still unanswered when somebody listens again is not
counted any more.
-/

namespace LiveQuery

open Std

namespace Subscriptions

/-- A target that is listened to awaits no answer to a request to remove it. -/
def Wanted (s : Subscriptions) : Prop :=
  ∀ (id : TargetId) sub, s.table[id]? = some sub → sub.listening = true → sub.removes = 0

/-- No entry becomes active and none gets another token. What is new is inactive and has none. -/
def Quiets (s after : Subscriptions) : Prop :=
  ∀ (id : TargetId) next, after.table[id]? = some next →
    (next.isActive = false ∧ next.token = none) ∨
      ∃ sub, s.table[id]? = some sub ∧ next.token = sub.token ∧
        (next.isActive = true → sub.isActive = true)

section Tables

variable {s after : Subscriptions}

theorem Quiets.of_table (same : after.table = s.table) : s.Quiets after :=
  fun _ next there => .inr ⟨next, same ▸ there, rfl, fun active => active⟩

/-- An edit is quiet if the edited entry is. -/
theorem Quiets.edited {id : TargetId} {entry : Option Subscription}
    (edited : s.Edited id entry after)
    (own : ∀ next, entry = some next → (next.isActive = false ∧ next.token = none) ∨
      ∃ sub, s.table[id]? = some sub ∧ next.token = sub.token ∧
        (next.isActive = true → sub.isActive = true)) : s.Quiets after := by
  intro other next there
  rw [edited.table] at there
  split at there
  case isTrue same => exact same ▸ own next there
  case isFalse => exact .inr ⟨next, there, rfl, fun active => active⟩

theorem Wanted.edited (wanted : s.Wanted) {id : TargetId} {entry : Option Subscription}
    (edited : s.Edited id entry after)
    (own : ∀ next, entry = some next → next.listening = true → next.removes = 0) :
    after.Wanted := by
  intro other sub there
  rw [edited.table] at there
  split at there
  case isTrue => exact own sub there
  case isFalse => exact wanted other sub there

/-- Listening makes nothing active on an open stream: what is asked for awaits its answer. -/
theorem listen_quiets (numbered : s.Numbered) (wanted : s.Wanted) (t : Target) :
    (s.listen t).2.Wanted ∧ (s.streamOpen = true → s.Quiets (s.listen t).2) := by
  rcases listen_cases numbered t with ⟨id, sub, entered, -, same⟩ |
      ⟨id, sub, entered, -, made⟩ | ⟨-, made⟩
  · rw [same]
    exact ⟨wanted, fun _ => .of_table rfl⟩
  · obtain rfl := (numbered id sub entered).1
    have edited := s.edited_start (resumed sub)
    rw [made]
    refine ⟨wanted.edited edited ?_, fun opened => .edited edited ?_⟩
    · rintro _ ⟨rfl⟩ -
      exact s.removes_started (resumed sub)
    · rintro _ ⟨rfl⟩
      refine .inr ⟨sub, entered, s.token_started (resumed sub), fun active => ?_⟩
      cases active.symm.trans (inactive_started opened _)
  · have edited := s.edited_subscribe t
    rw [made]
    refine ⟨wanted.edited edited ?_, fun opened => .edited edited ?_⟩
    · rintro _ ⟨rfl⟩ -
      exact s.removes_started (s.fresh t)
    · rintro _ ⟨rfl⟩
      exact .inl ⟨inactive_started opened _, s.token_started (s.fresh t)⟩

theorem unlisten_quiets (numbered : s.Numbered) (wanted : s.Wanted) (id : TargetId) :
    (s.unlisten id).Wanted ∧ s.Quiets (s.unlisten id) := by
  rcases s.unlisten_cases id with ⟨same, -⟩ | ⟨sub, entered, -, ⟨-, gone⟩ | ⟨-, kept⟩⟩
  · rw [same]
    exact ⟨wanted, .of_table rfl⟩
  · rw [gone]
    exact ⟨wanted.edited (s.edited_release id) nofun, .edited (s.edited_release id) nofun⟩
  · obtain rfl := (numbered id sub entered).1
    have edited : s.Edited sub.id (some (left sub)) (s.unlisten sub.id) := by
      rw [kept]
      exact ⟨s.table_put (left sub), Nat.le_refl _, rfl⟩
    refine ⟨wanted.edited edited ?_, .edited edited ?_⟩
    · rintro _ ⟨rfl⟩ heard
      cases heard
    · rintro _ ⟨rfl⟩
      exact .inr ⟨sub, entered, rfl, nofun⟩

/-- A removal without a cause leaves its target inactive, or gone. -/
theorem dropped_idle (wanted : s.Wanted) (opened : s.streamOpen = true) {sub : Subscription}
    (entered : s.table[sub.id]? = some sub) :
    ∃ entry, s.Edited sub.id entry (s.dropped sub).2 ∧ ∀ next, entry = some next →
      next.isActive = false ∧ next.token = sub.token ∧
        (next.listening = true → next.removes = 0) := by
  unfold dropped
  dsimp only
  split
  case isTrue due =>
    have unheard : sub.listening = false := by
      refine Bool.eq_false_iff.mpr fun heard => ?_
      exact absurd (wanted sub.id sub entered heard) (Nat.ne_of_gt due)
    split
    case isTrue => exact ⟨none, s.edited_release sub.id, nofun⟩
    case isFalse =>
      refine ⟨_, s.edited_put { sub with removes := sub.removes - 1 }, ?_⟩
      rintro _ ⟨rfl⟩
      exact ⟨by simp [Subscription.isActive, unheard], rfl, fun heard =>
        absurd heard (Bool.eq_false_iff.mp unheard)⟩
  case isFalse settled =>
    split
    case isTrue awaited =>
      refine ⟨_, edited_self entered, ?_⟩
      rintro _ ⟨rfl⟩
      refine ⟨?_, rfl, wanted sub.id sub entered⟩
      simp [Subscription.isActive, Nat.ne_of_gt awaited]
    case isFalse =>
      split
      case isFalse => exact ⟨none, s.edited_release sub.id, nofun⟩
      case isTrue heard =>
        let next : Subscription := { sub with current := false, adds := 1 }
        have edited : s.Edited sub.id (some next) (s.putAndAdd next) :=
          ⟨s.table_put next, Nat.le_refl _, rfl⟩
        refine ⟨some next, edited, ?_⟩
        rintro _ ⟨rfl⟩
        exact ⟨by simp [next, Subscription.isActive], rfl, wanted sub.id sub entered⟩

/-- So does any removal. -/
theorem removed_idle (numbered : s.Numbered) (wanted : s.Wanted) (opened : s.streamOpen = true)
    {id : TargetId} {cause : Option Status} {outcome : RemoveOutcome}
    (done : s.removed id cause = .ok (outcome, after)) :
    ∃ sub entry, s.table[id]? = some sub ∧ s.Edited id entry after ∧ ∀ next, entry = some next →
      next.isActive = false ∧ next.token = sub.token ∧
        (next.listening = true → next.removes = 0) := by
  unfold removed at done
  split at done
  case h_1 => cases done
  case h_2 sub status entered =>
    obtain ⟨-, rfl⟩ := Prod.mk.inj (Except.ok.inj done)
    exact ⟨sub, none, entered, s.edited_release id, nofun⟩
  case h_3 sub entered =>
    obtain rfl := (numbered id sub entered).1
    obtain ⟨entry, edited, idle⟩ := dropped_idle wanted opened entered
    have same : after = (s.dropped sub).2 := congrArg Prod.snd (Except.ok.inj done).symm
    exact ⟨sub, entry, entered, same ▸ edited, idle⟩

/-- What is marked as current awaits no more than before. -/
theorem wanted_foldl_markCurrent (version : Version) (changes : List (TargetId × TargetChange))
    (numbered : s.Numbered) (wanted : s.Wanted) :
    (changes.foldl (fun subs (id, change) =>
      if change.current then subs.markCurrent id change.token version else subs) s).Wanted := by
  induction changes generalizing s with
  | nil => exact wanted
  | cons first rest ih =>
    obtain ⟨id, change⟩ := first
    rw [List.foldl_cons]
    dsimp only
    split
    case isFalse => exact ih numbered wanted
    case isTrue =>
      have edited := edited_markCurrent numbered id change.token version
      have stamped : s.Stamped (fun _ => True) (s.markCurrent id change.token version) :=
        stamped_markCurrent numbered trivial change.token version
      refine ih (numbered.stamped stamped) (wanted.edited edited fun next made heard => ?_)
      obtain ⟨sub, entered, rfl⟩ := Option.map_eq_some_iff.mp made
      unfold marked at heard ⊢
      split at heard <;> rename_i active
      · rw [if_pos active]
        exact wanted id sub entered heard
      · rw [if_neg active]
        exact wanted id sub entered heard

end Tables

end Subscriptions

namespace WatchStream

section Turns

variable {s after : WatchStream}

theorem wanted_shut (subscriptions : Subscriptions) :
    ({ s with subscriptions } : WatchStream).shut.subscriptions.Wanted := by
  intro id sub entered
  have entered : subscriptions.streamClosed.table[id]? = some sub := entered
  rw [Subscriptions.table_streamClosed, Option.map_eq_some_iff] at entered
  obtain ⟨old, -, rfl⟩ := entered
  exact fun _ => rfl

theorem Turn.wanted (turn : s.Turn after) (sound : s.Sound) (wanted : s.subscriptions.Wanted) :
    after.subscriptions.Wanted := by
  cases turn with
  | connect asked =>
    unfold connect? at asked
    split at asked
    · cases asked
    · exact Option.some.inj asked ▸ wanted
  | opened now =>
    unfold WatchStream.opened
    split
    case isTrue => exact wanted
    case isFalse =>
      intro id sub entered
      have entered : s.subscriptions.streamOpened.table[id]? = some sub := entered
      rw [Subscriptions.table_streamOpened, Option.map_eq_some_iff] at entered
      obtain ⟨old, -, rfl⟩ := entered
      exact fun _ => rfl
  | closed error now =>
    rw [closed_eq]
    exact wanted_shut _
  | disconnect =>
    unfold WatchStream.disconnect
    split
    · exact wanted_shut s.subscriptions
    · exact wanted
  | restart => exact wanted_shut _
  | listen t => exact (Subscriptions.listen_quiets sound.numbered wanted t).1
  | unlisten id => exact (Subscriptions.unlisten_quiets sound.numbered wanted id).1
  | takeOutbox =>
    unfold WatchStream.takeOutbox
    split
    · exact wanted
    · exact wanted

/-- Whatever is no report leaves what an open stream collected as it is, if the stream stays open,
    and makes nothing active. -/
theorem Turn.quiets (turn : s.Turn after) (sound : s.Sound) (wanted : s.subscriptions.Wanted)
    (opened : s.state = .opened) (still : after.state = .opened) :
    after.collected = s.collected ∧ s.subscriptions.Quiets after.subscriptions := by
  cases turn with
  | connect asked =>
    unfold connect? at asked
    rw [opened] at asked
    cases asked
  | opened now =>
    rw [WatchStream.opened, if_pos opened]
    exact ⟨rfl, .of_table rfl⟩
  | closed error now =>
    rw [closed_eq] at still
    cases still
  | disconnect =>
    unfold WatchStream.disconnect at still
    rw [opened] at still
    cases still
  | restart => cases still
  | listen t =>
    exact ⟨rfl, (Subscriptions.listen_quiets sound.numbered wanted t).2
      (sound.opened.mpr opened)⟩
  | unlisten id => exact ⟨rfl, (Subscriptions.unlisten_quiets sound.numbered wanted id).2⟩
  | takeOutbox =>
    unfold WatchStream.takeOutbox
    split
    · exact ⟨rfl, .of_table rfl⟩
    · exact ⟨rfl, .of_table rfl⟩

/-- Nothing is collected when a stream opens. -/
theorem Turn.collected_of_opens (turn : s.Turn after) (unopened : s.state ≠ .opened)
    (opens : after.state = .opened) : after.collected = {} := by
  cases turn with
  | connect asked =>
    unfold connect? at asked
    split at asked
    · cases asked
    · obtain rfl := Option.some.inj asked
      cases opens
  | opened now => rw [WatchStream.opened, if_neg unopened]
  | closed error now =>
    rw [closed_eq] at opens
    cases opens
  | disconnect =>
    unfold WatchStream.disconnect at opens
    split at opens
    · cases opens
    · exact absurd opens unopened
  | restart => cases opens
  | listen t => exact absurd opens unopened
  | unlisten id => exact absurd opens unopened
  | takeOutbox =>
    unfold WatchStream.takeOutbox at opens
    split at opens
    · exact absurd opens unopened
    · exact absurd opens unopened

end Turns

/-- What was said of some targets is taken back. Those that are active then have nothing to resume
    from or are not reset. -/
structure Renewed (s : WatchStream) (ids : List TargetId) (after : WatchStream) : Prop where
  state : after.state = s.state
  updates : after.collected.updates = s.collected.updates
  changes : ∀ t, after.collected.changes[t]? =
    if t ∈ ids then none else s.collected.changes[t]?
  resets : ∀ t ∈ ids, t ∈ after.collected.resets ↔
    ∃ sub, after.subscriptions.table[t]? = some sub ∧ sub.isActive = true ∧ sub.token = none
  entries : ∀ t ∈ ids, ∀ next, after.subscriptions.table[t]? = some next →
    ∃ sub, s.subscriptions.table[t]? = some sub ∧ next.token = sub.token
  spared : ∀ t ∉ ids, after.subscriptions.table[t]? = s.subscriptions.table[t]? ∧
    (t ∈ after.collected.resets ↔ t ∈ s.collected.resets)

/-- A target that is to be reset has nothing to resume from. -/
def Frugal (s : WatchStream) : Prop :=
  ∀ t ∈ s.collected.resets, ∀ sub, s.subscriptions.table[t]? = some sub → sub.token = none

section Renewals

variable {s middle after : WatchStream}

theorem Renewed.refl (s : WatchStream) : s.Renewed [] s where
  state := rfl
  updates := rfl
  changes t := by simp
  resets t member := nomatch member
  entries t member := nomatch member
  spared t _ := ⟨rfl, .rfl⟩

theorem Renewed.trans {id : TargetId} {rest : List TargetId} (first : s.Renewed [id] middle)
    (second : middle.Renewed rest after) : s.Renewed (id :: rest) after where
  state := second.state.trans first.state
  updates := second.updates.trans first.updates
  changes t := by
    rw [second.changes, first.changes]
    by_cases later : t ∈ rest <;> simp [later]
  resets t member := by
    by_cases later : t ∈ rest
    · exact second.resets t later
    · obtain ⟨table, resets⟩ := second.spared t later
      have here : t ∈ [id] := by simpa [later] using member
      rw [resets, table]
      exact first.resets t here
  entries t member next there := by
    have through (sub : Subscription) (here : middle.subscriptions.table[t]? = some sub)
        (token : next.token = sub.token) :
        ∃ sub, s.subscriptions.table[t]? = some sub ∧ next.token = sub.token := by
      by_cases own : t ∈ [id]
      · obtain ⟨old, entered, same⟩ := first.entries t own sub here
        exact ⟨old, entered, token.trans same⟩
      · exact ⟨sub, (first.spared t own).1 ▸ here, token⟩
    by_cases later : t ∈ rest
    · obtain ⟨sub, here, token⟩ := second.entries t later next there
      exact through sub here token
    · exact through next ((second.spared t later).1 ▸ there) rfl
  spared t spared := by
    have apart : t ∉ [id] := fun here =>
      spared (List.mem_cons.mpr (.inl (List.mem_singleton.mp here)))
    have later : t ∉ rest := fun here => spared (List.mem_cons_of_mem id here)
    obtain ⟨table, resets⟩ := second.spared t later
    obtain ⟨table', resets'⟩ := first.spared t apart
    exact ⟨table.trans table', resets.trans resets'⟩

theorem Renewed.frugal {ids : List TargetId} (renewed : s.Renewed ids after)
    (frugal : s.Frugal) : after.Frugal := by
  intro t reset sub entered
  by_cases named : t ∈ ids
  · obtain ⟨own, there, -, token⟩ := (renewed.resets t named).mp reset
    exact Option.some.inj (there.symm.trans entered) ▸ token
  · obtain ⟨table, resets⟩ := renewed.spared t named
    exact frugal t (resets.mp reset) sub (table ▸ entered)

/-- An accepted addition leaves its target active, with a reset if it has nothing to resume from, or
    inactive. -/
theorem targetAdded_ok {id : TargetId} (done : s.targetAdded id = .ok after) :
    ∃ sub, s.subscriptions.table[id]? = some sub ∧ after = { s with
      subscriptions := s.subscriptions.put { sub with adds := sub.adds - 1 }
      collected :=
        if ({ sub with adds := sub.adds - 1 } : Subscription).isActive then
          if sub.token.isNone then (s.collected.forgetChange id).reset id
          else s.collected.forgetChange id
        else s.collected.discard id } := by
  unfold targetAdded at done
  cases answered : s.subscriptions.added id with
  | error fault =>
    rw [answered] at done
    cases done
  | ok result =>
    obtain ⟨outcome, subscriptions⟩ := result
    rw [answered] at done
    obtain rfl := Except.ok.inj done
    unfold Subscriptions.added at answered
    split at answered
    case h_1 => cases answered
    case h_2 sub entered =>
      split at answered
      case isTrue => cases answered
      case isFalse =>
        obtain ⟨rfl, rfl⟩ := Prod.mk.inj (Except.ok.inj answered)
        refine ⟨sub, entered, ?_⟩
        dsimp only
        cases ({ sub with adds := sub.adds - 1 } : Subscription).isActive <;>
          cases sub.token.isNone <;> rfl

/-- An edit of one entry that takes back what was said of its target renews it. -/
theorem Renewed.edited {id : TargetId} {entry : Option Subscription} {subscriptions : Subscriptions}
    {collected : RemoteEvent} (edited : s.subscriptions.Edited id entry subscriptions)
    (updates : collected.updates = s.collected.updates)
    (changes : collected.changes = s.collected.changes.erase id)
    (own : id ∈ collected.resets ↔ ∃ sub, entry = some sub ∧ sub.isActive = true ∧ sub.token = none)
    (others : ∀ t, id ≠ t → (t ∈ collected.resets ↔ t ∈ s.collected.resets))
    (token : ∀ next, entry = some next →
      ∃ sub, s.subscriptions.table[id]? = some sub ∧ next.token = sub.token) :
    s.Renewed [id] { s with subscriptions, collected } where
  state := rfl
  updates := updates
  changes t := by
    rw [changes, ExtTreeMap.getElem?_erase]
    by_cases same : id = t
    · simp [same]
    · rw [if_neg (mt LawfulEqOrd.eq_of_compare same), if_neg (by simp [Ne.symm same])]
  resets t here := by
    obtain rfl := List.mem_singleton.mp here
    rw [edited.table, if_pos rfl]
    exact own
  entries t here next there := by
    obtain rfl := List.mem_singleton.mp here
    rw [edited.table, if_pos rfl] at there
    exact token next there
  spared t spared := by
    have apart : id ≠ t := fun same => spared (List.mem_singleton.mpr same.symm)
    exact ⟨by rw [edited.table, if_neg apart], others t apart⟩

/-- An accepted addition renews its target. -/
theorem renewed_targetAdded (numbered : s.subscriptions.Numbered) (frugal : s.Frugal)
    {id : TargetId} (done : s.targetAdded id = .ok after) :
    s.Renewed [id] after ∧ after.subscriptions.Numbered ∧
      (s.subscriptions.Wanted → after.subscriptions.Wanted) := by
  obtain ⟨sub, entered, rfl⟩ := targetAdded_ok done
  obtain ⟨rfl, given⟩ := numbered id sub entered
  let next : Subscription := { sub with adds := sub.adds - 1 }
  have edited : s.subscriptions.Edited sub.id (some next) (s.subscriptions.put next) :=
    s.subscriptions.edited_put next
  have numbered' : (s.subscriptions.put next).Numbered := by
    refine numbered.edited edited ?_
    rintro _ ⟨rfl⟩
    exact ⟨rfl, given⟩
  have wanted (wanted : s.subscriptions.Wanted) : (s.subscriptions.put next).Wanted := by
    refine wanted.edited edited ?_
    rintro _ ⟨rfl⟩ heard
    exact wanted sub.id sub entered heard
  have token : ∀ other, some next = some other →
      ∃ sub', s.subscriptions.table[sub.id]? = some sub' ∧ other.token = sub'.token := by
    rintro _ ⟨rfl⟩
    exact ⟨sub, entered, rfl⟩
  refine ⟨?_, numbered', wanted⟩
  change s.Renewed [sub.id] { s with
    subscriptions := s.subscriptions.put next
    collected :=
      if next.isActive then
        if sub.token.isNone then (s.collected.forgetChange sub.id).reset sub.id
        else s.collected.forgetChange sub.id
      else s.collected.discard sub.id }
  split
  case isTrue active =>
    split
    case isTrue bare =>
      refine .edited edited rfl rfl ⟨fun _ => ⟨next, rfl, active, ?_⟩, fun _ => ?_⟩ ?_ token
      · exact Option.isNone_iff_eq_none.mp bare
      · exact ExtTreeSet.mem_insert_self
      · intro t apart
        change t ∈ s.collected.resets.insert sub.id ↔ _
        simp [apart]
    case isFalse resumable =>
      refine .edited edited rfl rfl ⟨fun reset => ?_, ?_⟩ (fun _ _ => .rfl) token
      · exact absurd (frugal sub.id reset sub entered)
          (mt Option.isNone_iff_eq_none.mpr resumable)
      · rintro ⟨_, ⟨rfl⟩, -, none_there⟩
        exact absurd none_there (mt Option.isNone_iff_eq_none.mpr resumable)
  case isFalse idle =>
    refine .edited edited rfl rfl ⟨fun reset => ?_, ?_⟩ ?_ token
    · have reset : sub.id ∈ s.collected.resets.erase sub.id := reset
      simp at reset
    · rintro ⟨_, ⟨rfl⟩, active, -⟩
      exact absurd active idle
    · intro t apart
      change t ∈ s.collected.resets.erase sub.id ↔ _
      simp [apart]

/-- So does an accepted removal, and it leaves its target inactive. -/
theorem renewed_targetRemoved (sound : s.Sound) (opened : s.state = .opened)
    (wanted : s.subscriptions.Wanted) {id : TargetId} {cause : Option Status}
    {rejections : List Rejection} (done : s.targetRemoved cause id = .ok (rejections, after)) :
    s.Renewed [id] after ∧ after.subscriptions.isActive id = false ∧
      after.subscriptions.Wanted := by
  unfold targetRemoved at done
  cases answered : s.subscriptions.removed id cause with
  | error fault =>
    rw [answered] at done
    cases done
  | ok result =>
    obtain ⟨outcome, subscriptions⟩ := result
    rw [answered] at done
    obtain ⟨-, rfl⟩ := Prod.mk.inj (Except.ok.inj done)
    obtain ⟨sub, entry, entered, edited, idle⟩ :=
      Subscriptions.removed_idle sound.numbered wanted (sound.opened.mpr opened) answered
    refine ⟨.edited edited rfl rfl ⟨fun reset => ?_, ?_⟩ ?_ ?_, ?_, ?_⟩
    · have reset : id ∈ s.collected.resets.erase id := reset
      simp at reset
    · rintro ⟨next, made, active, -⟩
      cases active.symm.trans (idle next made).1
    · intro t apart
      change t ∈ s.collected.resets.erase id ↔ _
      simp [apart]
    · exact fun next made => ⟨sub, entered, (idle next made).2.1⟩
    · rw [Subscriptions.isActive, edited.table, if_pos rfl]
      cases entry with
      | none => rfl
      | some next => exact (idle next rfl).1
    · exact wanted.edited edited fun next made => (idle next made).2.2

/-- Additions that are all accepted renew their targets. -/
theorem renewed_targetsAdded (ids : List TargetId) (numbered : s.subscriptions.Numbered)
    (frugal : s.Frugal) (done : (targetsAdded ids s).2 = .ok ()) :
    s.Renewed ids (targetsAdded ids s).1 ∧
      (s.subscriptions.Wanted → (targetsAdded ids s).1.subscriptions.Wanted) := by
  induction ids generalizing s with
  | nil => exact ⟨.refl s, fun wanted => wanted⟩
  | cons id rest ih =>
    unfold targetsAdded at done ⊢
    cases added : s.targetAdded id with
    | error fault =>
      rw [added] at done
      cases done
    | ok next =>
      rw [added] at done
      obtain ⟨first, numbered, wanted⟩ := renewed_targetAdded numbered frugal added
      obtain ⟨others, wanted'⟩ := ih numbered (first.frugal frugal) done
      exact ⟨first.trans others, fun here => wanted' (wanted here)⟩

/-- Removals that are all accepted renew their targets and leave them inactive. -/
theorem renewed_targetsRemoved (ids : List TargetId) (sound : s.Sound) (opened : s.state = .opened)
    (wanted : s.subscriptions.Wanted) {cause : Option Status} {rejections : List Rejection}
    (done : (targetsRemoved cause ids s).2 = .ok rejections) :
    s.Renewed ids (targetsRemoved cause ids s).1 ∧
      (∀ t ∈ ids, (targetsRemoved cause ids s).1.subscriptions.isActive t = false) ∧
      (targetsRemoved cause ids s).1.subscriptions.Wanted := by
  induction ids generalizing s rejections with
  | nil => exact ⟨.refl s, nofun, wanted⟩
  | cons id rest ih =>
    unfold targetsRemoved at done ⊢
    cases removed : s.targetRemoved cause id with
    | error fault =>
      rw [removed] at done
      cases done
    | ok result =>
      obtain ⟨refused, next⟩ := result
      rw [removed] at done
      dsimp only at done ⊢
      obtain ⟨first, idle, wanted⟩ := renewed_targetRemoved sound opened wanted removed
      cases later : (targetsRemoved cause rest next).2 with
      | error fault =>
        rw [later] at done
        cases done
      | ok others =>
        obtain ⟨second, idle', wanted⟩ := ih (fades_targetRemoved sound removed).1
          (first.state.trans opened) wanted later
        refine ⟨first.trans second, fun t member => ?_, wanted⟩
        by_cases again : t ∈ rest
        · exact idle' t again
        · rcases List.mem_cons.mp member with rfl | again'
          · rw [Subscriptions.isActive, (second.spared t again).1]
            exact idle
          · exact absurd again' again

/-- An accepted report leaves nobody waiting for a removal who is listened to. -/
theorem wanted_receive (sound : s.Sound) (wanted : s.subscriptions.Wanted) (frugal : s.Frugal)
    {change : WatchChange} {outcome : WatchOutcome}
    (accepted : (s.receive change).2 = .ok outcome) :
    (s.receive change).1.subscriptions.Wanted := by
  unfold receive at accepted ⊢
  split at accepted
  case isTrue => cases accepted
  case isFalse opened =>
    rw [if_neg opened]
    have opened : s.state = .opened := Decidable.not_not.mp opened
    cases change <;> dsimp only at accepted ⊢
    case targetAdded ids =>
      cases done : (targetsAdded ids s).2 with
      | error fault =>
        rw [done] at accepted
        cases accepted
      | ok => exact (renewed_targetsAdded ids sound.numbered frugal done).2 wanted
    case targetRemoved ids cause =>
      cases done : (targetsRemoved cause ids s).2 with
      | error fault =>
        rw [done] at accepted
        cases accepted
      | ok rejections => exact (renewed_targetsRemoved ids sound opened wanted done).2.2
    case documentChanged => exact wanted
    case current id token =>
      split
      case isTrue => exact wanted
      case isFalse =>
        split
        case isTrue => exact wanted
        case isFalse => exact wanted
    case snapshot version =>
      exact Subscriptions.wanted_foldl_markCurrent version _ sound.numbered wanted

end Renewals

end WatchStream

end LiveQuery
