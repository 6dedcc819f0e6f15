import LiveQuery.Proofs.RepeatedEvents
import LiveQuery.Proofs.ResumeTokens

/-!
# Where a replica's documents come from

The stream vouches for what is held of a target if the server may go on from it, or if
the target is live and not to be reset. As long as it does, the server's replica holds
what it held before and what was reported for the target since. A replica that the
stream does not vouch for may hold anything: it is reset before the stream vouches for
it again, and then it holds only what was reported since.
-/

namespace LiveQuery

open Std

namespace WatchChange

/-- The report says that the document under the key belongs to the target. -/
def Delivers (change : WatchChange) (t : TargetId) (key : DocumentKey) : Prop :=
  ∃ d updated removed, change = .documentChanged d updated removed ∧ t ∈ updated ∧
    d.isPresent = true ∧ d.key = key

/-- The report states the document under the key. -/
def States (change : WatchChange) (key : DocumentKey) (d : Document) : Prop :=
  d.key = key ∧ ∃ updated removed, change = .documentChanged d updated removed

end WatchChange

namespace RemoteEvent

section StateAfter

variable {event : RemoteEvent} {t : TargetId} {key : DocumentKey} {known : Option Document}
  {d : Document}

/-- A state that is taken in was known before, or it is the reported one. -/
theorem of_updated (there : event.updated key known = some d) :
    known = some d ∨ event.updates[key]? = some d := by
  unfold updated at there
  split at there
  case h_1 => exact .inl there
  case h_2 stated found =>
    split at there
    case isTrue => exact .inl there
    case isFalse => exact .inr (found.trans there)

/-- A state under a change was known before, or it is reported for a key that is added. -/
theorem of_stateUnder {change : TargetChange}
    (there : event.stateUnder change key known = some d) :
    known = some d ∨ event.updates[key]? = some d ∧ key ∈ change.added := by
  have kept (there : (if key ∈ change.removed.toList then none else known) = some d) :
      known = some d := by
    split at there
    · cases there
    · exact there
  unfold stateUnder at there
  dsimp only at there
  split at there
  case isFalse => exact .inl (kept there)
  case isTrue added =>
    exact (of_updated there).imp kept fun stated => ⟨stated, ExtTreeSet.mem_toList.mp added⟩

/-- A state after an event was known before and is not reset, or it is reported for a key that is
    added. -/
theorem of_stateAfter (there : event.stateAfter t key known = some d) :
    t ∉ event.resets ∧ known = some d ∨
      event.updates[key]? = some d ∧
        ∃ change, event.changes[t]? = some change ∧ key ∈ change.added := by
  have start (there : (if event.resets.contains t then none else known) = some d) :
      t ∉ event.resets ∧ known = some d := by
    split at there
    case isTrue => cases there
    case isFalse unreset => exact ⟨mt ExtTreeSet.mem_iff_contains.mp unreset, there⟩
  unfold stateAfter at there
  dsimp only at there
  split at there
  case h_1 => exact .inl (start there)
  case h_2 change here =>
    exact (of_stateUnder there).imp start fun ⟨stated, added⟩ => ⟨stated, change, here, added⟩

end StateAfter

end RemoteEvent

/-- A word adds a key only if it says that the key belongs to the target. -/
theorem Word.added_say {word : Word} {known : TargetChange} {key : DocumentKey}
    (added : key ∈ (word.say known).added) : word = .belongs key ∨ key ∈ known.added := by
  cases word with
  | belongs other =>
    have added : key ∈ known.added.insert other := added
    exact (ExtTreeSet.mem_insert.mp added).imp_left fun same =>
      congrArg Word.belongs (LawfulEqOrd.eq_of_compare same)
  | left other =>
    have added : key ∈ known.added.erase other := added
    exact .inr (ExtTreeSet.mem_of_mem_erase added)
  | complete token => exact .inr added

/-- What a round of words adds for a target was added before, or the word says so of the target. -/
theorem RemoteEvent.added_foldl {collect : RemoteEvent → TargetId → RemoteEvent} {word : Word}
    (each : ∀ (e : RemoteEvent) id, (collect e id).changes = (e.edit id word.say).changes)
    {ids : List TargetId} {e : RemoteEvent} {t : TargetId} {change : TargetChange}
    {key : DocumentKey} (here : (ids.foldl collect e).changes[t]? = some change)
    (added : key ∈ change.added) :
    (∃ old, e.changes[t]? = some old ∧ key ∈ old.added) ∨ t ∈ ids ∧ word = .belongs key := by
  rw [changes_foldl each word.say_say] at here
  split at here
  case isFalse => exact .inl ⟨change, here, added⟩
  case isTrue named =>
    obtain rfl := Option.some.inj here
    rcases Word.added_say added with said | before
    · exact .inr ⟨named, said⟩
    · cases known : e.changes[t]? with
      | none =>
        rw [known] at before
        exact absurd before ExtTreeSet.not_mem_empty
      | some old =>
        rw [known] at before
        exact .inl ⟨old, rfl, before⟩

namespace WatchStream

/-- The server's replica of the target is what the stream goes by. -/
def Vouches (s : WatchStream) (t : TargetId) : Prop :=
  s.Resumable t ∨ s.Live t ∧ t ∉ s.collected.resets

section Vouches

variable {s after : WatchStream} {t : TargetId} {brings : WatchChange → Prop}

theorem Vouches.contains (vouches : s.Vouches t) : s.subscriptions.contains t = true := by
  rcases vouches with resumable | ⟨⟨-, active⟩, -⟩
  · exact resumable.contains
  · obtain ⟨sub, entered, -⟩ := (s.subscriptions.isActive_iff t).mp active
    rw [Subscriptions.contains, ExtTreeMap.contains_eq_isSome_getElem?, entered]
    rfl

/-- Renewing targets vouches for none: one that is active then is reset, unless it can be
    resumed. -/
theorem Renewed.vouches {ids : List TargetId} (renewed : s.Renewed ids after)
    (vouches : after.Vouches t) : s.Vouches t := by
  rcases vouches with resumable | ⟨⟨opened, active⟩, unreset⟩
  · exact .inl (resumable.inherited renewed.inherits)
  · by_cases named : t ∈ ids
    case pos =>
      obtain ⟨sub, entered, active⟩ := (after.subscriptions.isActive_iff t).mp active
      have held : sub.token ≠ none := fun bare =>
        unreset ((renewed.resets t named).mpr ⟨sub, entered, active, bare⟩)
      have resumable : after.Resumable t := ⟨sub, entered, held⟩
      exact .inl (resumable.inherited renewed.inherits)
    case neg =>
      obtain ⟨table, resets⟩ := renewed.spared t named
      refine .inr ⟨⟨renewed.state ▸ opened, ?_⟩, mt resets.mpr unreset⟩
      rwa [Subscriptions.isActive, ← table]

/-- Nothing but a snapshot that is applied makes a stream vouch for a target. -/
theorem Vouches.moves (vouches : after.Vouches t) (sound : s.Sound) (tidy : s.Tidy)
    (moves : s.Moves brings after) : s.Vouches t := by
  cases moves with
  | same => exact vouches
  | turn turn =>
    rcases vouches with resumable | ⟨live, unreset⟩
    · exact .inl (resumable.inherited (turn.inherits sound tidy.wanted).1)
    · have before : s.Live t := ((turn.fades sound).2.live t live).elim (·) False.elim
      obtain ⟨same, -⟩ := turn.quiets sound tidy.wanted before.1 live.1
      exact .inr ⟨before, same ▸ unreset⟩
  | @report change outcome brought opened unclosed accepted =>
    rcases renews_receive sound tidy opened unclosed accepted with
      ⟨ids, renewed⟩ | ⟨d, updated, removed, -, same⟩ | ⟨id, token, -, same | same⟩
    · exact renewed.vouches vouches
    · rw [same] at vouches
      refine vouches.imp_right fun ⟨live, unreset⟩ => ⟨live, ?_⟩
      rwa [(s.grows_collectDocument d updated removed).resets] at unreset
    · exact same ▸ vouches
    · rw [same] at vouches
      exact vouches
  | @fault broken =>
    rcases vouches with resumable | ⟨live, -⟩
    · exact absurd resumable (broken.unresumable_restart t)
    · cases live.1

theorem mem_resets_flush {version : Version} :
    t ∈ (s.flush version).1.resets ↔
      t ∈ s.collected.resets ∧ s.subscriptions.isActive t = true := by
  change t ∈ s.collected.resets.filter s.subscriptions.isActive ↔ _
  simp

/-- What the stream vouches for after a snapshot it vouched for before, and it is not reset, or the
    snapshot resets it while it is active. -/
theorem Vouches.flush (sound : s.Sound) (tidy : s.Tidy) (opened : s.state = .opened)
    {version : Version} (vouches : (s.flush version).2.Vouches t) :
    s.Vouches t ∧ t ∉ (s.flush version).1.resets ∨
      t ∈ (s.flush version).1.resets ∧ (s.flush version).2.subscriptions.isActive t = true := by
  have active (live : s.Live t) (still : (s.flush version).2.subscriptions.isActive t = true) :
      s.Vouches t ∧ t ∉ (s.flush version).1.resets ∨
        t ∈ (s.flush version).1.resets ∧ (s.flush version).2.subscriptions.isActive t = true := by
    by_cases reset : t ∈ s.collected.resets
    · exact .inr ⟨mem_resets_flush.mpr ⟨reset, live.2⟩, still⟩
    · exact .inl ⟨.inr ⟨live, reset⟩, fun here => reset (mem_resets_flush.mp here).1⟩
  rcases vouches with resumable | ⟨live, -⟩
  · rcases resumable_flush sound tidy.frugal resumable with
      ⟨before, unreset⟩ | ⟨⟨change, here, -⟩, still⟩
    · exact .inl ⟨.inl before, unreset⟩
    · exact active ⟨opened, (active_of_changes_flush sound here).1⟩ still
  · have before := ((gains_flush sound opened version).2.live t live).elim (·) False.elim
    exact active before live.2

/-- What is added for a target by a document's report was added before, or the report delivers
    it. -/
theorem added_collectDocument {d : Document} {updated removed : List TargetId}
    {change : TargetChange} {key : DocumentKey}
    (here : (s.collectDocument d updated removed).changes[t]? = some change)
    (added : key ∈ change.added) :
    (∃ old, s.collected.changes[t]? = some old ∧ key ∈ old.added) ∨
      s.subscriptions.isActive t = true ∧ t ∈ updated ∧ d.isPresent = true ∧ d.key = key := by
  have word (e : RemoteEvent) (id : TargetId) :
      (collectUpdate d e id).changes = (e.edit id d.word.say).changes := by
    rw [RemoteEvent.collectUpdate_eq]
  have left (e : RemoteEvent) (id : TargetId) :
      (e.removeDocument id d.key).changes = (e.edit id (Word.left d.key).say).changes := rfl
  rcases RemoteEvent.added_foldl left here added with ⟨middle, there, added⟩ | ⟨-, ⟨⟩⟩
  refine (RemoteEvent.added_foldl word there added).imp_right ?_
  rintro ⟨named, said⟩
  obtain ⟨named, active⟩ := List.mem_filter.mp named
  unfold Document.word at said
  split at said
  case isTrue present => exact ⟨active, named, present, Word.belongs.inj said⟩
  case isFalse => cases said

/-- What is collected after a move was collected before, or a report that the move brings says
    it. -/
theorem Moves.collects (moves : s.Moves brings after) (sound : s.Sound) (tidy : s.Tidy) :
    (∀ (t : TargetId) change, after.collected.changes[t]? = some change → ∀ key ∈ change.added,
      (∃ old, s.collected.changes[t]? = some old ∧ key ∈ old.added) ∨
        s.Live t ∧ ∃ report, brings report ∧ report.Delivers t key) ∧
    ∀ (key : DocumentKey) d, after.collected.updates[key]? = some d →
      s.collected.updates[key]? = some d ∨ ∃ report, brings report ∧ report.States key d := by
  have kept {after : WatchStream} (same : after.collected = s.collected ∨ after.collected = {}) :
      (∀ (t : TargetId) change, after.collected.changes[t]? = some change → ∀ key ∈ change.added,
        (∃ old, s.collected.changes[t]? = some old ∧ key ∈ old.added) ∨
          s.Live t ∧ ∃ report, brings report ∧ report.Delivers t key) ∧
      ∀ (key : DocumentKey) d, after.collected.updates[key]? = some d →
        s.collected.updates[key]? = some d ∨ ∃ report, brings report ∧ report.States key d := by
    rcases same with same | blank
    · rw [same]
      exact ⟨fun t change here key added => .inl ⟨change, here, added⟩, fun key d here => .inl here⟩
    · rw [blank]
      refine ⟨fun t change here => ?_, fun key d here => ?_⟩
      · cases here.symm.trans ExtTreeMap.getElem?_empty
      · cases here.symm.trans ExtTreeMap.getElem?_empty
  cases moves with
  | same => exact kept (.inl rfl)
  | turn turn => exact kept (turn.inherits sound tidy.wanted).2
  | @report change outcome brought opened unclosed accepted =>
    rcases renews_receive sound tidy opened unclosed accepted with
      ⟨ids, renewed⟩ | ⟨d, updated, removed, rfl, same⟩ | ⟨id, token, -, same | same⟩
    · refine ⟨fun t change here key added => ?_, fun key d here => .inl (renewed.updates ▸ here)⟩
      rw [renewed.changes] at here
      split at here
      · cases here
      · exact .inl ⟨change, here, added⟩
    · rw [same]
      refine ⟨fun t change here key added => ?_, fun key stated here => ?_⟩
      · refine (added_collectDocument here added).imp_right ?_
        rintro ⟨active, named, present, own⟩
        exact ⟨⟨opened, active⟩, _, brought, d, updated, removed, rfl, named, present, own⟩
      · rw [updates_collectDocument] at here
        split at here
        case isFalse => exact .inl here
        case isTrue own =>
          obtain rfl := Option.some.inj here
          exact .inr ⟨_, brought, own.2, updated, removed, rfl⟩
    · exact kept (.inl (by rw [same]))
    · rw [same]
      refine ⟨fun t change here key added => .inl ?_, fun key d here => .inl here⟩
      have marks (e : RemoteEvent) (id : TargetId) : (e.markCurrent id (some token)).changes =
          (e.edit id (Word.complete token).say).changes := rfl
      have here : ([id].foldl (·.markCurrent · (some token)) s.collected).changes[t]? =
        some change := here
      exact (RemoteEvent.added_foldl marks here added).resolve_right nofun
  | fault sound => exact kept (.inr rfl)

end Vouches

end WatchStream

namespace Moment

/-- The document under the key is reported to belong to the target, and the report counts. -/
def Delivers (m : Moment) (t : TargetId) (key : DocumentKey) : Prop :=
  m.before.stream.Live t ∧ ∃ change, m.Brings change ∧ change.Delivers t key

/-- The document under the key is reported. -/
def States (m : Moment) (key : DocumentKey) (d : Document) : Prop :=
  ∃ change, m.Brings change ∧ change.States key d

end Moment

namespace Engine

/-- The target has a view, and all documents in the server's replica of it are as given. -/
def HoldsOnly (e : Engine) (t : TargetId) (documents : DocumentKey → Document → Prop) : Prop :=
  ∃ v, e.views[t]? = some v ∧
    ∀ key d, v.replicas.server.documents[key]? = some d → documents key d

/-- What the stream vouches for has keys and documents as given, and so does what is collected of
    the target. -/
structure Fed (keys : DocumentKey → Prop) (documents : DocumentKey → Document → Prop) (e : Engine)
    (t : TargetId) : Prop where
  replica : e.stream.Vouches t → e.HoldsOnly t fun key d => keys key ∧ documents key d
  added : ∀ change, e.stream.collected.changes[t]? = some change → ∀ key ∈ change.added, keys key
  stated : ∀ (key : DocumentKey) d, e.stream.collected.updates[key]? = some d → documents key d

section Fed

variable {e after : Engine} {t : TargetId} {keys moreKeys : DocumentKey → Prop}
  {documents moreDocuments : DocumentKey → Document → Prop}

theorem HoldsOnly.mono (holds : e.HoldsOnly t documents)
    (wider : ∀ key d, documents key d → moreDocuments key d) : e.HoldsOnly t moreDocuments := by
  obtain ⟨v, viewed, all⟩ := holds
  exact ⟨v, viewed, fun key d there => wider key d (all key d there)⟩

theorem HoldsOnly.keeps (holds : e.HoldsOnly t documents) (keeps : e.Keeps after t) :
    after.HoldsOnly t documents := by
  obtain ⟨v, viewed, all⟩ := holds
  obtain ⟨w, there, same⟩ := keeps v viewed
  exact ⟨w, there, same ▸ all⟩

theorem Fed.mono (fed : e.Fed keys documents t) (key : ∀ key, keys key → moreKeys key)
    (document : ∀ key d, documents key d → moreDocuments key d) :
    e.Fed moreKeys moreDocuments t where
  replica vouches := (fed.replica vouches).mono fun other d held =>
    ⟨key other held.1, document other d held.2⟩
  added change here other member := key other (fed.added change here other member)
  stated other d there := document other d (fed.stated other d there)

/-- A snapshot leaves in a replica what was there, unless it resets the target, and what it adds
    for the target. -/
theorem holds_applyRemote {event : RemoteEvent} (applied : e.applyRemote event = .ok after)
    (before : e.HoldsOnly t (fun key d => keys key ∧ documents key d) ∧ t ∉ event.resets ∨
      t ∈ event.resets ∧ e.stream.subscriptions.isActive t = true)
    (added : ∀ change, event.changes[t]? = some change → ∀ key ∈ change.added, keys key)
    (stated : ∀ (key : DocumentKey) d, event.updates[key]? = some d → documents key d) :
    after.HoldsOnly t fun key d => keys key ∧ documents key d := by
  have viewed : ∃ v, e.views[t]? = some v ∧ (t ∉ event.resets →
      ∀ key d, v.replicas.server.documents[key]? = some d → keys key ∧ documents key d) := by
    rcases before with ⟨⟨v, viewed, all⟩, -⟩ | ⟨reset, active⟩
    · exact ⟨v, viewed, fun _ => all⟩
    · -- a snapshot that resets an active target without a view is refused
      have affected : t ∈ event.affected := RemoteEvent.mem_affected.mpr (.inr reset)
      have viewless := List.find?_eq_none.mp (applyRemote_eq applied).1 t
        (ExtTreeSet.mem_toList.mpr affected)
      have there : e.views.contains t = true := by simpa [active] using viewless
      rw [ExtTreeMap.contains_eq_isSome_getElem?] at there
      obtain ⟨v, viewed⟩ := Option.isSome_iff_exists.mp there
      exact ⟨v, viewed, fun unreset => absurd reset unreset⟩
  obtain ⟨v, viewed, all⟩ := viewed
  obtain ⟨edition, shown, views⟩ := views_applyRemote applied t
  rw [viewed, Option.map_some] at views
  refine ⟨_, views, fun key d there => ?_⟩
  by_cases affected : t ∈ event.affected.toList
  case neg =>
    rw [if_neg affected] at there
    refine all (fun reset => affected (ExtTreeSet.mem_toList.mpr ?_)) key d there
    exact RemoteEvent.mem_affected.mpr (.inr reset)
  case pos =>
    rw [if_pos affected] at there
    have there : (event.documentsAfter t v.replicas.server.documents)[key]? = some d := there
    rw [RemoteEvent.getElem?_documentsAfter] at there
    rcases RemoteEvent.of_stateAfter there with ⟨unreset, known⟩ | ⟨reported, change, here, member⟩
    · exact all unreset key d known
    · exact ⟨added change here key member, stated key d reported⟩

end Fed

end Engine

/-- After a moment the replica of a target holds what it held before and what the moment reports for
    the target, if the stream vouches for it. -/
theorem Moment.fed {m : Moment} {t : TargetId} {keys : DocumentKey → Prop}
    {documents : DocumentKey → Document → Prop} (sound : m.before.stream.Sound)
    (tidy : m.before.stream.Tidy) (genuine : ∀ event, m.happening ≠ .call (.applyRemote event))
    (fed : m.before.Fed keys documents t) :
    m.after.Fed (fun key => keys key ∨ m.Delivers t key)
      (fun key d => documents key d ∨ m.States key d) t := by
  rcases m.course sound genuine with ⟨version, applies⟩ | ⟨moves, keeps⟩
  · have same := applies.stream
    obtain ⟨opened, applied, made, pruned⟩ := applies
    refine Engine.Fed.mono ⟨fun vouches => ?_, ?_, ?_⟩ (fun _ => .inl) fun _ _ => .inl
    · have known := vouches.contains
      rw [same] at vouches
      rw [pruned] at known ⊢
      refine Engine.HoldsOnly.keeps (Engine.holds_applyRemote made ?_ ?_ fed.stated)
        (Engine.keeps_prune known)
      · refine (vouches.flush sound tidy opened).imp_left fun ⟨before, unreset⟩ => ⟨?_, unreset⟩
        exact (fed.replica before).keeps (.of_same rfl)
      · intro change here
        have here : (m.before.stream.collected.changes.filter fun id _ =>
            m.before.stream.subscriptions.isActive id)[t]? = some change := here
        rw [ExtTreeMap.getElem?_filter', Option.filter_eq_some_iff] at here
        exact fed.added change here.1
    · rw [same]
      exact fun change here => nomatch here.symm.trans ExtTreeMap.getElem?_empty
    · rw [same]
      exact fun key d here => nomatch here.symm.trans ExtTreeMap.getElem?_empty
  · obtain ⟨changes, updates⟩ := moves.collects sound tidy
    refine ⟨fun vouches => ?_, fun change here key added => ?_, fun key d here => ?_⟩
    · have held := (fed.replica (vouches.moves sound tidy moves)).keeps (keeps t vouches.contains)
      exact held.mono fun key d both => ⟨.inl both.1, .inl both.2⟩
    · rcases changes t change here key added with ⟨old, there, member⟩ | delivered
      · exact .inl (fed.added old there key member)
      · exact .inr delivered
    · exact (updates key d here).imp_left (fed.stated key d)

/-- What the stream vouches for in the end is what was there at the start and what was reported for
    the target since. -/
theorem History.fed {past recent : List Moment} {t : TargetId} {keys : DocumentKey → Prop}
    {documents : DocumentKey → Document → Prop}
    (start : ∀ {e : Engine}, History past e → e.Fed keys documents t) {after : Engine}
    (history : History (recent ++ past) after) (driven : Driven recent) :
    after.Fed (fun key => keys key ∨ ∃ m ∈ recent, m.Delivers t key)
      (fun key d => documents key d ∨ ∃ m ∈ recent, m.States key d) t := by
  induction recent generalizing after with
  | nil => exact (start history).mono (fun _ => .inl) fun _ _ => .inl
  | cons m recent ih =>
    obtain ⟨now, before⟩ := List.forall_mem_cons.mp driven
    cases history with
    | @step _ e history happening =>
      have fed := Moment.fed (m := ⟨e, happening⟩) history.sound history.tidy now
        (ih history before)
      refine fed.mono (fun key held => ?_) fun key d held => ?_
      · simpa only [List.exists_mem_cons_iff, or_assoc, or_comm, or_left_comm] using held
      · simpa only [List.exists_mem_cons_iff, or_assoc, or_comm, or_left_comm] using held

end LiveQuery
