import LiveQuery.Proofs.SubscriptionTable
import LiveQuery.WatchStream

/-!
# Runs of the watch stream

A target is live while its subscription is active on an open stream, and it is
marked while it is live and a report that waits for its snapshot says that it is
complete. Only an accepted addition makes a target live, only a report that it
is complete marks it, and only a snapshot makes a marked target current. Nothing
else that happens to a stream does any of the three, and so a current target is
live.
-/

namespace LiveQuery

open Std

namespace Subscriptions

theorem isCurrent_iff (s : Subscriptions) (id : TargetId) :
    s.isCurrent id = true ↔ ∃ sub, s.table[id]? = some sub ∧ sub.current = true :=
  Option.any_eq_true _ _

theorem isActive_iff (s : Subscriptions) (id : TargetId) :
    s.isActive id = true ↔ ∃ sub, s.table[id]? = some sub ∧ sub.isActive = true :=
  Option.any_eq_true _ _

/-- No operation takes up a number again that was given out and is gone. -/
structure Retires (s after : Subscriptions) : Prop where
  nextId : s.nextId ≤ after.nextId
  gone : ∀ id : TargetId, s.table[id]? = none → id.val < s.nextId → after.table[id]? = none

theorem Retires.refl (s : Subscriptions) : s.Retires s := ⟨Nat.le_refl _, fun _ gone _ => gone⟩

theorem Retires.trans {s middle after : Subscriptions} (first : s.Retires middle)
    (second : middle.Retires after) : s.Retires after where
  nextId := Nat.le_trans first.nextId second.nextId
  gone id absent given :=
    second.gone id (first.gone id absent given) (Nat.lt_of_lt_of_le given first.nextId)

/-- An edit takes up no number again if the edited one is entered or not given out. -/
theorem Edited.retires {s after : Subscriptions} {id : TargetId} {entry : Option Subscription}
    (edited : s.Edited id entry after)
    (known : entry ≠ none → s.table[id]? = none → s.nextId ≤ id.val) : s.Retires after where
  nextId := edited.nextId
  gone other absent given := by
    rw [edited.table]
    split
    case isTrue same =>
      subst same
      cases entry with
      | none => rfl
      | some => exact absurd given (Nat.not_lt_of_le (known (nofun) absent))
    case isFalse => exact absent

end Subscriptions

namespace WatchStream

/-- Somebody listens to the target. -/
def Heard (s : WatchStream) (id : TargetId) : Prop :=
  ∃ sub, s.subscriptions.table[id]? = some sub ∧ sub.listening = true

instance (s : WatchStream) (id : TargetId) : Decidable (s.Heard id) :=
  decidable_of_iff (s.subscriptions.table[id]?.any (·.listening) = true)
    (Option.any_eq_true _ _)

/-- Reports on the target count, and the stream may bring some. -/
def Live (s : WatchStream) (id : TargetId) : Prop :=
  s.state = .opened ∧ s.subscriptions.isActive id = true

/-- A report that waits for its snapshot says that the target is complete. -/
def Marked (s : WatchStream) (id : TargetId) : Prop :=
  s.Live id ∧ ∃ change, s.collected.changes[id]? = some change ∧ change.current = true

/-- The target is current as of the last snapshot. -/
def Current (s : WatchStream) (id : TargetId) : Prop := s.subscriptions.isCurrent id = true

/-- What every operation on a stream keeps. A target that is current is live, and the next snapshot
    does not reset it. -/
structure Sound (s : WatchStream) : Prop where
  numbered : s.subscriptions.Numbered
  opened : s.subscriptions.streamOpen = true ↔ s.state = .opened
  current : ∀ id, s.Current id → s.Live id
  resets : ∀ id ∈ s.collected.resets, ¬s.Current id

theorem sound_ofConfig (config : BackoffConfig) : (ofConfig config).Sound := by
  have empty (id : TargetId) : (ofConfig config).subscriptions.table[id]? = none :=
    ExtTreeMap.getElem?_empty
  refine ⟨?_, ⟨nofun, nofun⟩, ?_, ?_⟩
  · exact fun id sub entered => nomatch (empty id).symm.trans entered
  · intro id current
    obtain ⟨sub, entered, -⟩ := (Subscriptions.isCurrent_iff _ id).mp current
    cases (empty id).symm.trans entered
  · exact fun id reset => absurd reset ExtTreeSet.not_mem_empty

/-- Somebody listens to a target that is current. -/
theorem Sound.heard {s : WatchStream} (sound : s.Sound) {id : TargetId} (current : s.Current id) :
    s.Heard id := by
  obtain ⟨sub, entered, active⟩ :=
    (s.subscriptions.isActive_iff id).mp (sound.current id current).2
  exact ⟨sub, entered, (Bool.and_eq_true_iff.mp active).1⟩

/-- From one stream to the next no targets become live but those of `activated`, none marked but
    those of `marked`, and none current but those of `completed`. -/
structure Gains (activated marked completed : TargetId → Prop) (s after : WatchStream) : Prop where
  live : ∀ id, after.Live id → s.Live id ∨ activated id
  marked : ∀ id, after.Marked id → s.Marked id ∨ marked id
  current : ∀ id, after.Current id → s.Current id ∨ completed id
  retires : s.subscriptions.Retires after.subscriptions

/-- Nothing becomes live, marked or current. -/
abbrev Fades (s after : WatchStream) : Prop :=
  s.Gains (fun _ => False) (fun _ => False) (fun _ => False) after

theorem Gains.refl {activated marked completed : TargetId → Prop} (s : WatchStream) :
    s.Gains activated marked completed s :=
  ⟨fun _ => .inl, fun _ => .inl, fun _ => .inl, .refl _⟩

theorem Gains.trans {activated marked completed : TargetId → Prop} {s middle after : WatchStream}
    (first : s.Gains activated marked completed middle)
    (second : middle.Gains activated marked completed after) :
    s.Gains activated marked completed after where
  live id live := (second.live id live).elim (first.live id) .inr
  marked id marked := (second.marked id marked).elim (first.marked id) .inr
  current id current := (second.current id current).elim (first.current id) .inr
  retires := first.retires.trans second.retires

/-- More targets may be named. -/
theorem Gains.widen {activated marked completed more others rest : TargetId → Prop}
    {s after : WatchStream} (gains : s.Gains activated marked completed after)
    (live : ∀ id, activated id → more id) (marks : ∀ id, marked id → others id)
    (current : ∀ id, completed id → rest id) : s.Gains more others rest after where
  live id here := (gains.live id here).imp_right (live id)
  marked id here := (gains.marked id here).imp_right (marks id)
  current id here := (gains.current id here).imp_right (current id)
  retires := gains.retires

/-- Operations on the stream that are no reports of the server. -/
inductive Turn : WatchStream → WatchStream → Prop
  | connect {s after : WatchStream} (asked : s.connect? = some after) : Turn s after
  | opened (s : WatchStream) (now : Duration) : Turn s (s.opened now)
  | closed (s : WatchStream) (error : Option StreamError) (now : Duration) :
    Turn s (s.closed error now).2
  | disconnect (s : WatchStream) : Turn s s.disconnect
  | restart (s : WatchStream) : Turn s s.restart
  | listen (s : WatchStream) (t : Target) : Turn s (s.listen t).2
  | unlisten (s : WatchStream) (id : TargetId) : Turn s (s.unlisten id)
  | takeOutbox (s : WatchStream) : Turn s s.takeOutbox.2

/-- What an edit of one entry must not do, if the stream is to stay sound and no target but those of
    `activated` is to become live. -/
structure Decent (s : WatchStream) (activated : TargetId → Prop) (id : TargetId)
    (next : Subscription) (after : Subscriptions) : Prop where
  named : next.id = id
  given : id.val < after.nextId
  active : s.state = .opened → next.isActive = true → s.subscriptions.isActive id = true ∨
    activated id
  current : next.current = true → next.isActive = true ∧ s.Current id
  known : s.subscriptions.table[id]? = none → s.subscriptions.nextId ≤ id.val

section Edits

variable {s : WatchStream} {activated : TargetId → Prop} {id : TargetId}
  {entry : Option Subscription} {after : Subscriptions} {collected : RemoteEvent}

/-- A decent edit makes no other target current. -/
theorem current_of_edited (edited : s.subscriptions.Edited id entry after)
    (decent : ∀ next, entry = some next → s.Decent activated id next after) {other : TargetId}
    (current : after.isCurrent other = true) : s.Current other := by
  obtain ⟨sub, entered, current⟩ := (after.isCurrent_iff other).mp current
  rw [edited.table] at entered
  split at entered
  case isTrue same => exact same ▸ ((decent sub entered).current current).2
  case isFalse => exact (s.subscriptions.isCurrent_iff other).mpr ⟨sub, entered, current⟩

theorem active_of_edited (edited : s.subscriptions.Edited id entry after)
    (decent : ∀ next, entry = some next → s.Decent activated id next after)
    (opened : s.state = .opened) {other : TargetId} (active : after.isActive other = true) :
    s.subscriptions.isActive other = true ∨ activated other := by
  obtain ⟨sub, entered, active⟩ := (after.isActive_iff other).mp active
  rw [edited.table] at entered
  split at entered
  case isTrue same => exact same ▸ (decent sub entered).active opened active
  case isFalse => exact .inl ((s.subscriptions.isActive_iff other).mpr ⟨sub, entered, active⟩)

/-- A decent edit keeps a stream sound. -/
theorem Sound.edit (sound : s.Sound) (edited : s.subscriptions.Edited id entry after)
    (decent : ∀ next, entry = some next → s.Decent activated id next after)
    (resets : ∀ other ∈ collected.resets, ¬s.Current other) :
    Sound { s with subscriptions := after, collected } where
  numbered := sound.numbered.edited edited fun next here =>
    ⟨(decent next here).named, (decent next here).given⟩
  opened := by
    rw [← sound.opened]
    exact Bool.eq_iff_iff.mp edited.streamOpen
  current other current := by
    have before := current_of_edited edited decent current
    obtain ⟨opened, active⟩ := sound.current other before
    refine ⟨opened, ?_⟩
    obtain ⟨sub, entered, marked⟩ := (after.isCurrent_iff other).mp current
    refine (after.isActive_iff other).mpr ⟨sub, entered, ?_⟩
    rw [edited.table] at entered
    split at entered
    case isTrue => exact ((decent sub entered).current marked).1
    case isFalse =>
      obtain ⟨old, there, active⟩ := (s.subscriptions.isActive_iff other).mp active
      exact Option.some.inj (there.symm.trans entered) ▸ active
  resets other reset current := resets other reset (current_of_edited edited decent current)

/-- A decent edit makes none but the named targets live. -/
theorem gains_edit (edited : s.subscriptions.Edited id entry after)
    (decent : ∀ next, entry = some next → s.Decent activated id next after)
    (reports : ∀ other change, collected.changes[other]? = some change → change.current = true →
      (∃ old, s.collected.changes[other]? = some old ∧ old.current = true) ∧ ¬activated other) :
    s.Gains activated (fun _ => False) (fun _ => False)
      { s with subscriptions := after, collected } where
  live other live := (active_of_edited edited decent live.1 live.2).imp_left (⟨live.1, ·⟩)
  marked other marked := by
    obtain ⟨⟨opened, active⟩, change, here, complete⟩ := marked
    obtain ⟨old, idle⟩ := reports other change here complete
    have live := (active_of_edited edited decent opened active).resolve_right idle
    exact .inl ⟨⟨opened, live⟩, old⟩
  current other current := .inl (current_of_edited edited decent current)
  retires := edited.retires fun there absent => by
    obtain ⟨next, here⟩ := Option.ne_none_iff_exists'.mp there
    exact (decent next here).known absent

end Edits

/-- Listening to a target is a decent edit. -/
theorem decent_listen {s : WatchStream} (sound : s.Sound) (t : Target) :
    ∃ next, s.subscriptions.Edited (s.listen t).1 (some next) (s.listen t).2.subscriptions ∧
      s.Decent (fun _ => False) (s.listen t).1 next (s.listen t).2.subscriptions ∧
      next.listening = true := by
  obtain ⟨next, edited, named, given, heard, same | ⟨idle, waits, -, unused⟩⟩ :=
    Subscriptions.listen_edited sound.numbered t
  · refine ⟨next, edited, ⟨named, named ▸ given, ?_, ?_, ?_⟩, heard⟩
    · exact fun _ active => .inl ((s.subscriptions.isActive_iff _).mpr ⟨next, same, active⟩)
    · intro current
      have before : s.Current (s.listen t).1 :=
        (s.subscriptions.isCurrent_iff _).mpr ⟨next, same, current⟩
      obtain ⟨sub, there, active⟩ :=
        (s.subscriptions.isActive_iff _).mp (sound.current _ before).2
      exact ⟨Option.some.inj (there.symm.trans same) ▸ active, before⟩
    · exact fun absent => nomatch absent.symm.trans same
  · refine ⟨next, edited, ⟨named, named ▸ given, ?_, ?_, unused⟩, heard⟩
    · intro opened active
      exact nomatch active.symm.trans (waits (sound.opened.mpr opened))
    · exact fun current => nomatch idle.symm.trans current

/-- So is the end of listening. -/
theorem decent_unlisten {s : WatchStream} (sound : s.Sound) (id : TargetId) :
    ∃ entry, s.subscriptions.Edited id entry (s.unlisten id).subscriptions ∧
      ∀ next, entry = some next →
        s.Decent (fun _ => False) id next (s.unlisten id).subscriptions := by
  obtain ⟨entry, edited, unheard⟩ := Subscriptions.unlisten_edited sound.numbered id
  refine ⟨entry, edited, fun next here => ?_⟩
  obtain ⟨unheard, named, sub, entered, left⟩ := unheard next here
  have given : id.val < s.subscriptions.nextId := (sound.numbered id sub entered).2
  have idle : next.isActive = false := by simp [Subscription.isActive, unheard]
  refine ⟨named, Nat.lt_of_lt_of_le given edited.nextId, ?_, ?_, ?_⟩
  · intro _ active
    cases active.symm.trans idle
  · intro current
    rcases left with rfl | none_current
    · have before : s.Current id := (s.subscriptions.isCurrent_iff id).mpr ⟨next, entered, current⟩
      obtain ⟨sub, there, active⟩ :=
        (s.subscriptions.isActive_iff id).mp (sound.current id before).2
      exact ⟨Option.some.inj (there.symm.trans entered) ▸ active, before⟩
    · cases current.symm.trans none_current
  · intro absent
    cases absent.symm.trans entered

/-- A stream that was shut is sound, and all that counted on it counts no more. -/
theorem sound_shut {s : WatchStream} (numbered : s.subscriptions.Numbered) : s.shut.Sound := by
  have none_current (id : TargetId) : ¬s.shut.Current id := by
    intro current
    obtain ⟨sub, entered, current⟩ := (s.shut.subscriptions.isCurrent_iff id).mp current
    have entered : s.subscriptions.streamClosed.table[id]? = some sub := entered
    rw [Subscriptions.table_streamClosed, Option.map_eq_some_iff] at entered
    obtain ⟨old, -, rfl⟩ := entered
    exact nomatch current
  constructor
  case numbered =>
    intro id sub entered
    have entered : s.subscriptions.streamClosed.table[id]? = some sub := entered
    rw [Subscriptions.table_streamClosed, Option.map_eq_some_iff] at entered
    obtain ⟨old, kept, rfl⟩ := entered
    obtain ⟨named, given⟩ := numbered id old (Option.filter_eq_some_iff.mp kept).1
    exact ⟨named, Nat.lt_of_lt_of_eq given s.subscriptions.nextId_streamClosed.symm⟩
  case opened =>
    have closed : s.shut.subscriptions.streamOpen = false :=
      s.subscriptions.streamOpen_streamClosed
    rw [closed]
    exact ⟨nofun, nofun⟩
  case current => exact fun id current => absurd current (none_current id)
  case resets => exact fun id _ => none_current id

/-- Shutting a stream forgets what nobody listens to, and nothing else. -/
theorem retires_streamClosed (s : Subscriptions) : s.Retires s.streamClosed where
  nextId := Nat.le_of_eq s.nextId_streamClosed.symm
  gone id absent _ := by
    rw [Subscriptions.table_streamClosed, absent]
    rfl

theorem fades_shut {s : WatchStream} {before : WatchStream}
    (retires : before.subscriptions.Retires s.subscriptions) (numbered : s.subscriptions.Numbered) :
    before.Fades s.shut where
  live _ live := nomatch live.1
  marked _ marked := nomatch marked.1.1
  current id current := nomatch ((sound_shut numbered).current id current).1
  retires := retires.trans (retires_streamClosed s.subscriptions)

/-- Rejecting targets releases them. -/
theorem rejectAll_eq (status : Status) (ids : List TargetId) (s : Subscriptions) :
    (rejectAll status ids s).2 = ids.foldl Subscriptions.release s := by
  induction ids generalizing s with
  | nil => rfl
  | cons id rest ih => exact ih (s.release id)

theorem retires_foldl_release (ids : List TargetId) (s : Subscriptions) :
    s.Retires (ids.foldl Subscriptions.release s) where
  nextId := Nat.le_of_eq (Subscriptions.frame_foldl_release ids s).2.1.symm
  gone id absent _ := by rw [Subscriptions.table_foldl_release, absent, ite_self]

theorem numbered_foldl_release (ids : List TargetId) {s : Subscriptions} (numbered : s.Numbered) :
    (ids.foldl Subscriptions.release s).Numbered := by
  intro id sub entered
  rw [Subscriptions.table_foldl_release] at entered
  rw [(Subscriptions.frame_foldl_release ids s).2.1]
  split at entered
  case isTrue => cases entered
  case isFalse => exact numbered id sub entered

/-- A stream that ends is shut once the victims of the error are released. -/
theorem closed_eq (s : WatchStream) (error : Option StreamError) (now : Duration) :
    (s.closed error now).2 =
      { { s with subscriptions :=
            (error.elim [] s.victims).foldl Subscriptions.release s.subscriptions }.shut with
        backoff := s.backoff.recordFailure now } := by
  cases error with
  | none => rfl
  | some error =>
    rw [Option.elim_some, ← rejectAll_eq error.status]
    rfl

/-- A stream that opens asks for every target anew, so none is live yet. -/
theorem opened_fades {s : WatchStream} (sound : s.Sound) (now : Duration) :
    (s.opened now).Sound ∧ s.Fades (s.opened now) := by
  unfold opened
  split
  case isTrue => exact ⟨sound, .refl s⟩
  case isFalse =>
    let after : WatchStream :=
      { state := .opened
        subscriptions := s.subscriptions.streamOpened
        backoff := s.backoff.recordOpen now
        collected := {} }
    have asked {id : TargetId} {sub : Subscription}
        (entered : after.subscriptions.table[id]? = some sub) :
        sub.isActive = false ∧ sub.current = false ∧
          ∃ old, s.subscriptions.table[id]? = some old ∧ sub.id = old.id := by
      obtain ⟨old, there, rfl⟩ :=
        Option.map_eq_some_iff.mp ((s.subscriptions.table_streamOpened id).symm.trans entered)
      exact ⟨by simp [Subscription.isActive, Subscription.reopened], rfl, old, there, rfl⟩
    have none_live (id : TargetId) : ¬after.Live id := by
      rintro ⟨-, active⟩
      obtain ⟨sub, entered, active⟩ := (after.subscriptions.isActive_iff id).mp active
      cases active.symm.trans (asked entered).1
    have none_current (id : TargetId) : ¬after.Current id := by
      intro current
      obtain ⟨sub, entered, current⟩ := (after.subscriptions.isCurrent_iff id).mp current
      cases current.symm.trans (asked entered).2.1
    have numbered : after.subscriptions.Numbered := by
      intro id sub entered
      obtain ⟨-, -, old, there, named⟩ := asked entered
      exact ⟨named.trans (sound.numbered id old there).1, (sound.numbered id old there).2⟩
    refine ⟨⟨numbered, ⟨fun _ => rfl, fun _ => rfl⟩, ?_, fun id _ => none_current id⟩,
      ?_, ?_, ?_, ?_⟩
    · exact fun id current => absurd current (none_current id)
    · exact fun id live => absurd live (none_live id)
    · exact fun id marked => absurd marked.1 (none_live id)
    · exact fun id current => absurd current (none_current id)
    · refine ⟨Nat.le_refl _, fun id absent _ => ?_⟩
      rw [Subscriptions.table_streamOpened, absent]
      rfl

/-- Whatever is no report of the server keeps a stream sound, and no target gains by it. -/
theorem Turn.fades {s after : WatchStream} (turn : Turn s after) (sound : s.Sound) :
    after.Sound ∧ s.Fades after := by
  have shut (subs : Subscriptions) (retires : s.subscriptions.Retires subs)
      (numbered : subs.Numbered) (backoff : Backoff) :
      Sound { ({ s with subscriptions := subs } : WatchStream).shut with backoff } ∧
        s.Fades { ({ s with subscriptions := subs } : WatchStream).shut with backoff } := by
    obtain ⟨numbered', opened, current, resets⟩ :=
      sound_shut (s := { s with subscriptions := subs }) numbered
    obtain ⟨live, marked, currents, retires⟩ :=
      fades_shut (s := { s with subscriptions := subs }) retires numbered
    exact ⟨⟨numbered', opened, current, resets⟩, live, marked, currents, retires⟩
  cases turn with
  | connect asked =>
    unfold connect? at asked
    split at asked
    case isTrue => cases asked
    case isFalse unstarted =>
      obtain rfl := Option.some.inj asked
      have unopened : s.state ≠ .opened := fun opened => unstarted (opened ▸ rfl)
      have none_current (id : TargetId) : ¬s.Current id :=
        fun current => unopened (sound.current id current).1
      refine ⟨⟨sound.numbered, ?_, ?_, ?_⟩, ?_, ?_, ?_, .refl _⟩
      · exact ⟨fun streaming => absurd (sound.opened.mp streaming) unopened, nofun⟩
      · exact fun id current => absurd current (none_current id)
      · exact fun id _ => none_current id
      · exact fun _ live => nomatch live.1
      · exact fun _ marked => nomatch marked.1.1
      · exact fun id current => absurd current (none_current id)
  | opened now => exact opened_fades sound now
  | closed error now =>
    rw [closed_eq]
    exact shut _ (retires_foldl_release _ _) (numbered_foldl_release _ sound.numbered) _
  | disconnect =>
    unfold WatchStream.disconnect
    split
    case isTrue => exact shut _ (.refl _) sound.numbered _
    case isFalse => exact ⟨sound, .refl s⟩
  | restart =>
    refine shut s.subscriptions.clearTokens ⟨Nat.le_refl _, fun id absent _ => ?_⟩ ?_ _
    · rw [Subscriptions.table_clearTokens, absent]
      rfl
    · intro id sub entered
      rw [Subscriptions.table_clearTokens, Option.map_eq_some_iff] at entered
      obtain ⟨old, there, rfl⟩ := entered
      exact sound.numbered id old there
  | listen t =>
    obtain ⟨next, edited, decent, -⟩ := decent_listen sound t
    have decent : ∀ sub, some next = some sub →
        s.Decent (fun _ => False) (s.listen t).1 sub (s.listen t).2.subscriptions := by
      rintro sub ⟨rfl⟩
      exact decent
    exact ⟨sound.edit edited decent sound.resets, gains_edit edited decent
      fun _ change here complete => ⟨⟨change, here, complete⟩, id⟩⟩
  | unlisten id =>
    obtain ⟨entry, edited, decent⟩ := decent_unlisten sound id
    exact ⟨sound.edit edited decent sound.resets, gains_edit edited decent
      fun _ change here complete => ⟨⟨change, here, complete⟩, fun impossible => impossible⟩⟩
  | takeOutbox =>
    unfold WatchStream.takeOutbox
    split
    case isTrue =>
      exact ⟨⟨sound.numbered, sound.opened, sound.current, sound.resets⟩, fun _ => .inl,
        fun _ => .inl, fun _ => .inl, Nat.le_refl _, fun _ gone _ => gone⟩
    case isFalse => exact ⟨sound, .refl s⟩

/-- Whoever listened still does, and the same targets are current. -/
structure Calm (s after : WatchStream) : Prop where
  heard : ∀ id, s.Heard id → after.Heard id
  current : ∀ id, after.subscriptions.isCurrent id = s.subscriptions.isCurrent id

theorem Calm.refl (s : WatchStream) : s.Calm s := ⟨fun _ heard => heard, fun _ => rfl⟩

theorem Calm.trans {s middle after : WatchStream} (first : s.Calm middle)
    (second : middle.Calm after) : s.Calm after where
  heard id heard := second.heard id (first.heard id heard)
  current id := (second.current id).trans (first.current id)

theorem calm_connect {s after : WatchStream} (asked : s.connect? = some after) :
    s.Calm after := by
  unfold connect? at asked
  split at asked
  case isTrue => cases asked
  case isFalse => exact Option.some.inj asked ▸ ⟨fun _ heard => heard, fun _ => rfl⟩

theorem calm_takeOutbox (s : WatchStream) : s.Calm s.takeOutbox.2 := by
  unfold takeOutbox
  split <;> exact ⟨fun _ heard => heard, fun _ => rfl⟩

/-- Nothing was current before the stream opened, and nothing is so at once. -/
theorem calm_opened {s : WatchStream} (sound : s.Sound) (now : Duration) :
    s.Calm (s.opened now) := by
  obtain ⟨-, fades⟩ := opened_fades sound now
  constructor
  case heard =>
    rintro id ⟨sub, entered, heard⟩
    unfold opened
    split
    case isTrue => exact ⟨sub, entered, heard⟩
    case isFalse =>
      refine ⟨sub.reopened, ?_, heard⟩
      rw [Subscriptions.table_streamOpened, entered, Option.map_some]
  case current =>
    intro id
    rw [Bool.eq_iff_iff]
    refine ⟨fun current => (fades.current id current).elim (·) False.elim, fun current => ?_⟩
    have opened : s.state = .opened := (sound.current id current).1
    rwa [WatchStream.opened, if_pos opened]

/-- A stream that is shut forgets nobody who is listened to. -/
theorem heard_shut {s : WatchStream} {id : TargetId} (heard : s.Heard id) : s.shut.Heard id := by
  obtain ⟨sub, entered, heard⟩ := heard
  refine ⟨sub.settled, ?_, heard⟩
  change s.subscriptions.streamClosed.table[id]? = _
  rw [Subscriptions.table_streamClosed, entered, Option.filter_some, if_pos heard, Option.map_some]

theorem heard_disconnect {s : WatchStream} {id : TargetId} (heard : s.Heard id) :
    s.disconnect.Heard id := by
  unfold disconnect
  split
  case isTrue => exact heard_shut heard
  case isFalse => exact heard

theorem heard_restart {s : WatchStream} {id : TargetId} (heard : s.Heard id) :
    s.restart.Heard id := by
  obtain ⟨sub, entered, heard⟩ := heard
  apply heard_shut
  refine ⟨{ sub with token := none, version := .start }, ?_, heard⟩
  rw [Subscriptions.table_clearTokens, entered, Option.map_some]

/-- Listening to one target leaves the others as they are, and the target is listened to then. -/
theorem heard_listen {s : WatchStream} (sound : s.Sound) (t : Target) :
    (s.listen t).2.Heard (s.listen t).1 ∧ ∀ other, other ≠ (s.listen t).1 →
      (s.listen t).2.subscriptions.table[other]? = s.subscriptions.table[other]? := by
  obtain ⟨next, edited, -, heard⟩ := decent_listen sound t
  refine ⟨⟨next, ?_, heard⟩, fun other differs => ?_⟩
  · rw [edited.table, if_pos rfl]
  · rw [edited.table, if_neg (Ne.symm differs)]

/-- The end of listening to one target leaves the others as they are. -/
theorem table_unlisten {s : WatchStream} (sound : s.Sound) {id other : TargetId}
    (differs : other ≠ id) :
    (s.unlisten id).subscriptions.table[other]? = s.subscriptions.table[other]? := by
  obtain ⟨entry, edited, -⟩ := decent_unlisten sound id
  rw [edited.table, if_neg (Ne.symm differs)]

/-- The rejected ones of the targets are those that somebody listens to. -/
theorem mem_rejectAll {status : Status} {ids : List TargetId} {s : Subscriptions} {r : Rejection} :
    r ∈ (rejectAll status ids s).1 ↔ r.status = status ∧ r.target ∈ ids ∧
      s.table[r.target]?.any (·.listening) = true := by
  induction ids generalizing s with
  | nil => simp [rejectAll]
  | cons id rest ih =>
    have later := @ih (s.release id)
    rw [Subscriptions.table_release] at later
    have split : r ∈ (rejectAll status (id :: rest) s).1 ↔
        (r = ⟨id, status⟩ ∧ s.table[id]?.any (·.listening) = true) ∨
          r ∈ (rejectAll status rest (s.release id)).1 := by
      change r ∈ (if s.table[id]?.any (·.listening) then ⟨id, status⟩ :: _ else _) ↔ _
      split
      case isTrue heard => simp [heard]
      case isFalse unheard => simp [unheard]
    rw [split, later]
    by_cases same : r.target = id
    · have whole : r = ⟨id, status⟩ ↔ r.status = status := by
        cases r
        simp_all
      simp [same, whole]
    · have other : r ≠ ⟨id, status⟩ := fun whole => same (congrArg Rejection.target whole)
      simp [same, Ne.symm same, other]

/-- When the stream ends, whoever is listened to stays so unless the error ends it for good. -/
theorem heard_closed (s : WatchStream) (error : Option StreamError) (now : Duration)
    {id : TargetId} (heard : s.Heard id) :
    (s.closed error now).2.Heard id ∨ ∃ status, ⟨id, status⟩ ∈ (s.closed error now).1 := by
  rw [closed_eq]
  obtain ⟨sub, entered, listening⟩ := heard
  by_cases victim : id ∈ error.elim [] s.victims
  · cases error with
    | none => exact nomatch victim
    | some error =>
      refine .inr ⟨error.status, ?_⟩
      exact mem_rejectAll.mpr ⟨rfl, victim, by simp [entered, listening]⟩
  · refine .inl (heard_shut ⟨sub, ?_, listening⟩)
    rw [Subscriptions.table_foldl_release, if_neg victim, entered]

/-- What the end of the stream rejects was listened to and is gone. -/
theorem rejected_closed {s : WatchStream} {error : Option StreamError} {now : Duration}
    {r : Rejection} (rejected : r ∈ (s.closed error now).1) :
    s.Heard r.target ∧ (s.closed error now).2.subscriptions.table[r.target]? = none := by
  rw [closed_eq]
  cases error with
  | none => exact nomatch rejected
  | some error =>
    obtain ⟨-, victim, heard⟩ := mem_rejectAll.mp rejected
    refine ⟨(Option.any_eq_true _ _).mp heard, ?_⟩
    change (Subscriptions.streamClosed _).table[r.target]? = none
    rw [Subscriptions.table_streamClosed, Subscriptions.table_foldl_release]
    have victim : r.target ∈ (some error).elim [] s.victims := victim
    rw [if_pos victim]
    rfl

end WatchStream

end LiveQuery
