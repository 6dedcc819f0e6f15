import LiveQuery.Proofs.ServerFreshness
import LiveQuery.Proofs.StreamSpans

/-!
# Resume tokens

A token tells the server from where it may go on, so it is worth something only as
long as the state it stands for is still there. An entry gets a token by a snapshot
that completes its target, and after that it keeps the token or loses it. A target
that is to be reset has none, so no snapshot resets a target that could be resumed,
and the replica that such a target was left with stays complete.
-/

namespace LiveQuery

open Std

namespace Subscriptions

/-- No entry gets a token that it did not have. -/
def Inherits (s after : Subscriptions) : Prop :=
  ∀ (t : TargetId) next, after.table[t]? = some next →
    next.token = none ∨ ∃ sub, s.table[t]? = some sub ∧ next.token = sub.token

section Inherits

variable {s after : Subscriptions}

theorem Inherits.of_table (same : after.table = s.table) : s.Inherits after :=
  fun _ next there => .inr ⟨next, same ▸ there, rfl⟩

/-- What makes nothing active on an open stream gives no token, either. -/
theorem Inherits.of_quiets (quiets : s.Quiets after) : s.Inherits after := by
  intro t next there
  rcases quiets t next there with ⟨-, bare⟩ | ⟨sub, entered, token, -⟩
  · exact .inl bare
  · exact .inr ⟨sub, entered, token⟩

/-- An edit gives no token if the edited entry gets none. -/
theorem Inherits.edited {id : TargetId} {next : Subscription}
    (edited : s.Edited id (some next) after)
    (own : next.token = none ∨ ∃ sub, s.table[id]? = some sub ∧ next.token = sub.token) :
    s.Inherits after := by
  intro t other there
  rw [edited.table] at there
  split at there
  case isTrue same =>
    obtain rfl := Option.some.inj there
    exact same ▸ own
  case isFalse => exact .inr ⟨other, there, rfl⟩

theorem inherits_listen (numbered : s.Numbered) (t : Target) : s.Inherits (s.listen t).2 := by
  rcases listen_cases numbered t with ⟨id, sub, -, -, same⟩ |
      ⟨id, sub, entered, -, made⟩ | ⟨-, made⟩
  · rw [same]
    exact .of_table rfl
  · obtain rfl := (numbered id sub entered).1
    rw [made]
    exact .edited (s.edited_start (resumed sub)) (.inr ⟨sub, entered, s.token_started _⟩)
  · rw [made]
    exact .edited (s.edited_subscribe t) (.inl (s.token_started _))

/-- Without a stream the entries that stay keep their tokens. -/
theorem inherits_streamClosed (s : Subscriptions) : s.Inherits s.streamClosed := by
  intro t next there
  rw [table_streamClosed, Option.map_eq_some_iff] at there
  obtain ⟨sub, kept, rfl⟩ := there
  exact .inr ⟨sub, (Option.filter_eq_some_iff.mp kept).1, rfl⟩

end Inherits

end Subscriptions

namespace WatchStream

/-- The server may go on from what is known of the target. -/
def Resumable (s : WatchStream) (t : TargetId) : Prop :=
  ∃ sub, s.subscriptions.table[t]? = some sub ∧ sub.token ≠ none

/-- Who is listened to awaits no removal, and who is to be reset has nothing to resume from. -/
structure Tidy (s : WatchStream) : Prop where
  wanted : s.subscriptions.Wanted
  frugal : s.Frugal

section Resumable

variable {s after : WatchStream} {t : TargetId}

/-- What can be resumed is subscribed. -/
theorem Resumable.contains (resumable : s.Resumable t) : s.subscriptions.contains t = true := by
  obtain ⟨sub, entered, -⟩ := resumable
  rw [Subscriptions.contains, ExtTreeMap.contains_eq_isSome_getElem?, entered]
  rfl

theorem Resumable.inherited (resumable : after.Resumable t)
    (inherits : s.subscriptions.Inherits after.subscriptions) : s.Resumable t := by
  obtain ⟨next, there, held⟩ := resumable
  rcases inherits t next there with bare | ⟨sub, entered, token⟩
  · exact absurd bare held
  · exact ⟨sub, entered, token ▸ held⟩

/-- What can be resumed is not reset. -/
theorem Frugal.spares (frugal : s.Frugal) (resumable : s.Resumable t) : t ∉ s.collected.resets := by
  obtain ⟨sub, entered, held⟩ := resumable
  exact fun reset => held (frugal t reset sub entered)

theorem Frugal.inherited (frugal : s.Frugal)
    (inherits : s.subscriptions.Inherits after.subscriptions)
    (resets : ∀ t ∈ after.collected.resets, t ∈ s.collected.resets) : after.Frugal := by
  intro t reset next there
  rcases inherits t next there with bare | ⟨sub, entered, token⟩
  · exact bare
  · exact token.trans (frugal t (resets t reset) sub entered)

/-- Nothing is to be reset when nothing is collected. -/
theorem frugal_of_blank (blank : s.collected = {}) : s.Frugal := by
  intro t reset
  rw [blank] at reset
  exact absurd reset ExtTreeSet.not_mem_empty

theorem Renewed.inherits {ids : List TargetId} (renewed : s.Renewed ids after) :
    s.subscriptions.Inherits after.subscriptions := by
  intro t next there
  by_cases named : t ∈ ids
  · exact .inr (renewed.entries t named next there)
  · exact .inr ⟨next, (renewed.spared t named).1 ▸ there, rfl⟩

/-- Whatever is no report gives no token, and keeps what was collected as it is or drops it. -/
theorem Turn.inherits (turn : s.Turn after) (sound : s.Sound) (wanted : s.subscriptions.Wanted) :
    s.subscriptions.Inherits after.subscriptions ∧
      (after.collected = s.collected ∨ after.collected = {}) := by
  cases turn with
  | connect asked =>
    unfold connect? at asked
    split at asked
    · cases asked
    · exact Option.some.inj asked ▸ ⟨.of_table rfl, .inl rfl⟩
  | opened now =>
    unfold WatchStream.opened
    split
    case isTrue => exact ⟨.of_table rfl, .inl rfl⟩
    case isFalse =>
      refine ⟨fun t next there => ?_, .inr rfl⟩
      have there : s.subscriptions.streamOpened.table[t]? = some next := there
      rw [Subscriptions.table_streamOpened, Option.map_eq_some_iff] at there
      obtain ⟨sub, entered, rfl⟩ := there
      exact .inr ⟨sub, entered, rfl⟩
  | closed error now =>
    rw [closed_eq]
    refine ⟨fun t next there => ?_, .inr rfl⟩
    refine (Subscriptions.inherits_streamClosed _ t next there).imp_right ?_
    rintro ⟨sub, kept, token⟩
    rw [Subscriptions.table_foldl_release] at kept
    split at kept
    · cases kept
    · exact ⟨sub, kept, token⟩
  | disconnect =>
    unfold WatchStream.disconnect
    split
    · exact ⟨Subscriptions.inherits_streamClosed _, .inr rfl⟩
    · exact ⟨.of_table rfl, .inl rfl⟩
  | restart =>
    refine ⟨fun t next there => .inl ?_, .inr rfl⟩
    have there : s.subscriptions.clearTokens.streamClosed.table[t]? = some next := there
    rcases Subscriptions.inherits_streamClosed _ t next there with bare | ⟨sub, cleared, token⟩
    · exact bare
    · rw [Subscriptions.table_clearTokens, Option.map_eq_some_iff] at cleared
      obtain ⟨old, -, rfl⟩ := cleared
      exact token
  | listen t => exact ⟨Subscriptions.inherits_listen sound.numbered t, .inl rfl⟩
  | unlisten id =>
    exact ⟨.of_quiets (Subscriptions.unlisten_quiets sound.numbered wanted id).2, .inl rfl⟩
  | takeOutbox =>
    unfold WatchStream.takeOutbox
    split <;> exact ⟨.of_table rfl, .inl rfl⟩

/-- A restart leaves nothing to resume from. -/
theorem unresumable_restart (s : WatchStream) (t : TargetId) : ¬s.restart.Resumable t := by
  rintro ⟨next, there, held⟩
  have there : s.subscriptions.clearTokens.streamClosed.table[t]? = some next := there
  rcases Subscriptions.inherits_streamClosed _ t next there with bare | ⟨sub, cleared, token⟩
  · exact held bare
  · rw [Subscriptions.table_clearTokens, Option.map_eq_some_iff] at cleared
    obtain ⟨old, -, rfl⟩ := cleared
    exact held token

/-- An accepted report that closes nothing renews the targets that it names, or it is on a document,
    or it says that a target is complete. -/
theorem renews_receive (sound : s.Sound) (tidy : s.Tidy) (opened : s.state = .opened)
    {change : WatchChange} (unclosed : ¬change.Closes) {outcome : WatchOutcome}
    (accepted : (s.receive change).2 = .ok outcome) :
    (∃ ids, s.Renewed ids (s.receive change).1) ∨
      (∃ d updated removed, change = .documentChanged d updated removed ∧
        (s.receive change).1 = { s with collected := s.collectDocument d updated removed }) ∨
      ∃ id token, change = .current id token ∧ ((s.receive change).1 = s ∨
        (s.receive change).1 =
          { s with collected := s.collected.markCurrent id (some token) }) := by
  unfold receive at accepted ⊢
  rw [if_neg (not_not_intro opened)] at accepted ⊢
  cases change <;> dsimp only at accepted ⊢
  case targetAdded ids =>
    left
    cases done : (targetsAdded ids s).2 with
    | error fault =>
      rw [done] at accepted
      cases accepted
    | ok => exact ⟨ids, (renewed_targetsAdded ids sound.numbered tidy.frugal done).1⟩
  case targetRemoved ids cause =>
    left
    cases done : (targetsRemoved cause ids s).2 with
    | error fault =>
      rw [done] at accepted
      cases accepted
    | ok rejections => exact ⟨ids, (renewed_targetsRemoved ids sound opened tidy.wanted done).1⟩
  case documentChanged d updated removed => exact .inr (.inl ⟨d, updated, removed, rfl, rfl⟩)
  case current id token =>
    refine .inr (.inr ⟨id, token, rfl, ?_⟩)
    split
    case isTrue => exact .inl rfl
    case isFalse =>
      split
      case isTrue => exact .inr rfl
      case isFalse => exact .inl rfl
  case snapshot version => exact absurd ⟨version, rfl⟩ unclosed

/-- Nothing but a snapshot that is applied gives a token, and all calls keep a stream tidy. -/
theorem Tidy.moves (tidy : s.Tidy) (sound : s.Sound) {brings : WatchChange → Prop}
    (moves : s.Moves brings after) :
    after.Tidy ∧ s.subscriptions.Inherits after.subscriptions := by
  cases moves with
  | same => exact ⟨tidy, .of_table rfl⟩
  | turn turn =>
    obtain ⟨inherits, collected⟩ := turn.inherits sound tidy.wanted
    refine ⟨⟨turn.wanted sound tidy.wanted, ?_⟩, inherits⟩
    rcases collected with same | blank
    · exact tidy.frugal.inherited inherits fun t reset => same ▸ reset
    · exact frugal_of_blank blank
  | @report change outcome brought opened unclosed accepted =>
    have wanted := wanted_receive sound tidy.wanted tidy.frugal accepted
    rcases renews_receive sound tidy opened unclosed accepted with
      ⟨ids, renewed⟩ | ⟨d, updated, removed, -, same⟩ | ⟨id, token, -, same | same⟩
    · exact ⟨⟨wanted, renewed.frugal tidy.frugal⟩, renewed.inherits⟩
    · have inherits : s.subscriptions.Inherits (s.receive change).1.subscriptions :=
        .of_table (by rw [same])
      refine ⟨⟨wanted, tidy.frugal.inherited inherits fun t reset => ?_⟩, inherits⟩
      rw [same] at reset
      exact (s.grows_collectDocument d updated removed).resets ▸ reset
    · rw [same]
      exact ⟨tidy, .of_table rfl⟩
    · rw [same] at wanted ⊢
      exact ⟨⟨wanted, tidy.frugal⟩, .of_table rfl⟩
  | @fault broken sound =>
    have wanted : broken.restart.subscriptions.Wanted :=
      wanted_shut broken.subscriptions.clearTokens
    refine ⟨⟨wanted, frugal_of_blank rfl⟩, fun t next there => .inl ?_⟩
    by_contra held
    exact broken.unresumable_restart t ⟨next, there, held⟩

theorem Tidy.flush (tidy : s.Tidy) (sound : s.Sound) (version : Version) :
    (s.flush version).2.Tidy :=
  ⟨Subscriptions.wanted_foldl_markCurrent version _ sound.numbered tidy.wanted, frugal_of_blank rfl⟩

/-- What a snapshot completes is active, before it and after. -/
theorem active_of_changes_flush (sound : s.Sound) {version : Version} {change : TargetChange}
    (here : (s.flush version).1.changes[t]? = some change) :
    s.subscriptions.isActive t = true ∧
      (s.flush version).2.subscriptions.isActive t = true := by
  have kept : (s.collected.changes.filter fun id _ => s.subscriptions.isActive id)[t]? =
      some change := here
  rw [ExtTreeMap.getElem?_filter', Option.filter_eq_some_iff] at kept
  obtain ⟨sub, entered, active⟩ := (s.subscriptions.isActive_iff t).mp kept.2
  rcases (stamped_flush sound version).entry t with ⟨absent, -⟩ | ⟨_, next, again, there, waxes⟩
  · cases entered.symm.trans absent
  · obtain rfl := Option.some.inj (entered.symm.trans again)
    exact ⟨kept.2, (Subscriptions.isActive_iff _ t).mpr ⟨next, there, waxes.active.trans active⟩⟩

/-- What can be resumed after a snapshot could be so before and is not reset, or the snapshot
    completes it. -/
theorem resumable_flush (sound : s.Sound) (frugal : s.Frugal) {version : Version}
    (resumable : (s.flush version).2.Resumable t) :
    s.Resumable t ∧ t ∉ (s.flush version).1.resets ∨
      (∃ change, (s.flush version).1.changes[t]? = some change ∧ change.current = true) ∧
        (s.flush version).2.subscriptions.isActive t = true := by
  by_cases completed : ∃ change, (s.flush version).1.changes[t]? = some change ∧
    change.current = true
  case pos =>
    obtain ⟨change, here, complete⟩ := completed
    exact .inr ⟨⟨change, here, complete⟩, (active_of_changes_flush sound here).2⟩
  case neg =>
    obtain ⟨sub, entered, held⟩ := resumable
    rw [(stamped_flush sound version).others t completed] at entered
    have before : s.Resumable t := ⟨sub, entered, held⟩
    refine .inl ⟨before, fun reset => frugal.spares before ?_⟩
    have reset : t ∈ s.collected.resets.filter s.subscriptions.isActive := reset
    exact ExtTreeSet.mem_of_mem_filter reset

end Resumable

end WatchStream

namespace Moment

/-- A stream stays tidy in every moment. -/
theorem tidy (m : Moment) (sound : m.before.stream.Sound) (tidy : m.before.stream.Tidy) :
    m.after.stream.Tidy := by
  obtain ⟨e, happening⟩ := m
  cases happening with
  | detach id => exact tidy
  | restock store => exact tidy
  | call action =>
    rcases Engine.moves_perform sound action with moves | ⟨version, now, -, applies⟩
    · exact (tidy.moves sound moves).1
    · rw [after, Engine.meet, applies.stream]
      exact tidy.flush sound version

end Moment

namespace History

variable {past : List Moment} {e : Engine}

theorem tidy (history : History past e) : e.stream.Tidy := by
  induction history with
  | start read =>
    obtain ⟨pending, rfl⟩ := Engine.ofStore_eq read
    refine ⟨fun t sub entered => ?_, WatchStream.frugal_of_blank rfl⟩
    cases entered.symm.trans ExtTreeMap.getElem?_empty
  | @step past e history happening ih => exact Moment.tidy ⟨e, happening⟩ history.sound ih

/-- The server's replica of a target that can be resumed is complete. -/
theorem complete_of_resumable (history : History past e) (driven : Driven past) :
    ∀ t, e.stream.Resumable t → e.Complete t := by
  induction history with
  | start read =>
    rintro t ⟨sub, entered, -⟩
    obtain ⟨pending, rfl⟩ := Engine.ofStore_eq read
    cases entered.symm.trans ExtTreeMap.getElem?_empty
  | @step past e history happening ih =>
    intro t resumable
    obtain ⟨now, before⟩ := List.forall_mem_cons.mp driven
    refine Moment.complete (m := ⟨e, happening⟩) history.sound now resumable.contains
      (fun moves => ?_) fun version opened same => ?_
    · exact ih before t (resumable.inherited (history.tidy.moves history.sound moves).2)
    · have resumable : (⟨e, happening⟩ : Moment).after.stream.Resumable t := resumable
      rw [same] at resumable
      exact (WatchStream.resumable_flush history.sound history.tidy.frugal resumable).imp_left
        fun ⟨held, unreset⟩ => ⟨ih before t held, unreset⟩

end History

end LiveQuery
