import LiveQuery.Proofs.StreamSpans

/-!
# Snapshots replay their span

The event of a snapshot is determined by the log alone: for each target it replays
what was said since the last report on that target, for each document it holds the
last state that was reported for anybody, and it resets the targets that became
active in the span with nothing to resume from. Reports that were taken back, and
what was said while nobody listened, leave no trace. The invariant relates what is
collected to the log after every call; turns of the application keep it because they
make nothing active on an open stream.
-/

namespace LiveQuery

open Std

/-- One call on a stream: the report that it takes in, if any, and the stream before and after. -/
structure Passage where
  before : WatchStream
  report : Option WatchChange
  after : WatchStream

namespace Passage

/-- A span starts when the stream opens and after each snapshot. -/
def starts (p : Passage) : Bool :=
  (p.before.state != .opened && p.after.state == .opened) ||
    match p.report with
    | some (.snapshot _) => true
    | _ => false

/-- The report says that the target is added or removed. -/
def names (t : TargetId) (p : Passage) : Bool :=
  match p.report with
  | some (.targetAdded ids) => ids.contains t
  | some (.targetRemoved ids _) => ids.contains t
  | _ => false

/-- What the report says of the target, the latest first. It says nothing of an inactive one. -/
def words (t : TargetId) (p : Passage) : List Word :=
  match p.report with
  | some (.documentChanged d updated removed) => p.before.documentWords d updated removed t
  | some (.current id token) =>
    if id = t ∧ p.before.subscriptions.isActive t then [.complete token] else []
  | _ => []

/-- The state of the document that is reported for an active target. -/
def body? (key : DocumentKey) (p : Passage) : Option Document :=
  match p.report with
  | some (.documentChanged d updated _) =>
    if updated.any p.before.subscriptions.isActive ∧ d.key = key then some d else none
  | _ => none

/-- The report adds the target, which then is active and has nothing to resume from. -/
def wipes (t : TargetId) (p : Passage) : Bool :=
  match p.report with
  | some (.targetAdded ids) => ids.contains t &&
    p.after.subscriptions.table[t]?.any fun sub => sub.isActive && sub.token.isNone
  | _ => false

theorem names_of_wipes {t : TargetId} {p : Passage} (wipes : p.wipes t = true) :
    p.names t = true := by
  unfold Passage.wipes at wipes
  unfold names
  split at wipes
  case h_1 reported =>
    rw [reported]
    exact (Bool.and_eq_true_iff.mp wipes).1
  case h_2 => cases wipes

end Passage

namespace WatchStream

/-- The calls of a stream, the latest first. All reports are accepted. -/
inductive Logged : List Passage → WatchStream → Prop
  | start (config : BackoffConfig) : Logged [] (.ofConfig config)
  | turn {past : List Passage} {s after : WatchStream} (logged : Logged past s)
    (turn : s.Turn after) : Logged (⟨s, none, after⟩ :: past) after
  | report {past : List Passage} {s : WatchStream} {change : WatchChange} {outcome : WatchOutcome}
    (logged : Logged past s) (accepted : (s.receive change).2 = .ok outcome) :
    Logged (⟨s, some change, (s.receive change).1⟩ :: past) (s.receive change).1

/-- The calls since the span started. -/
def span (past : List Passage) : List Passage := past.takeWhile (!·.starts)

/-- What was said of the target since the last report that names it, the latest first. -/
def heard (t : TargetId) (span : List Passage) : List Word :=
  (span.takeWhile (!·.names t)).flatMap (·.words t)

/-- The last state of the document that was reported for an active target. -/
def lastBody (key : DocumentKey) (span : List Passage) : Option Document :=
  span.findSome? (·.body? key)

/-- The target became active with nothing to resume from. -/
def Wiped (t : TargetId) (span : List Passage) : Prop := ∃ p ∈ span, p.wipes t = true

/-- The last report that names the target is one by which it became active with nothing to resume
    from. -/
def WipedLast (t : TargetId) (span : List Passage) : Prop :=
  (span.find? (·.names t)).any (·.wipes t) = true

/-- What an event has to say if these are the calls of its span, and the stream is as given. -/
structure Recounts (s : WatchStream) (span : List Passage) (event : RemoteEvent) : Prop where
  /-- A target is mentioned if it is active and something was said of it. -/
  mentioned : ∀ t, t ∈ event.changes ↔ s.subscriptions.isActive t = true ∧ heard t span ≠ []
  replayed : ∀ (t : TargetId) change, event.changes[t]? = some change →
    TargetChange.Replays (heard t span) change
  /-- Of each document the last state counts, and of each key that is added there is one. -/
  updates : ∀ key, event.updates[key]? = lastBody key span
  stated : ∀ (t : TargetId) change, event.changes[t]? = some change →
    ∀ key ∈ change.added, ∃ d, event.updates[key]? = some d
  resets : ∀ t, t ∈ event.resets ↔ s.subscriptions.isActive t = true ∧ Wiped t span

/-- What is collected as of the calls of a span. A target that was wiped in it still has nothing to
    resume from, and is active only if nothing named it after that. -/
structure Tracks (span : List Passage) (s : WatchStream) : Prop where
  changes : ∀ t, s.collected.changes[t]? = TargetChange.entry (heard t span)
  updates : ∀ key, s.collected.updates[key]? = lastBody key span
  resets : ∀ t, t ∈ s.collected.resets ↔ WipedLast t span
  bare : ∀ t, Wiped t span → ∀ sub, s.subscriptions.table[t]? = some sub →
    sub.token = none ∧ (sub.isActive = true → WipedLast t span)

section Spans

variable {span : List Passage} {p : Passage} {t : TargetId}

theorem heard_cons : heard t (p :: span) = if p.names t then [] else p.words t ++ heard t span := by
  unfold heard
  rw [List.takeWhile_cons]
  cases p.names t <;> rfl

theorem lastBody_cons (key : DocumentKey) :
    lastBody key (p :: span) = (p.body? key).or (lastBody key span) := by
  unfold lastBody
  rw [List.findSome?_cons]
  cases p.body? key <;> rfl

theorem wiped_cons : Wiped t (p :: span) ↔ p.wipes t = true ∨ Wiped t span := by
  simp [Wiped]

theorem wipedLast_cons :
    WipedLast t (p :: span) ↔ if p.names t then p.wipes t = true else WipedLast t span := by
  unfold WipedLast
  rw [List.find?_cons]
  cases p.names t <;> simp

theorem wiped_of_last (last : WipedLast t span) : Wiped t span := by
  obtain ⟨p, found, wipes⟩ := (Option.any_eq_true _ _).mp last
  exact ⟨p, List.mem_of_find?_eq_some found, wipes⟩

/-- Whatever is added for a target was reported for it, and so its state was. -/
theorem body_of_belongs {key : DocumentKey} (said : .belongs key ∈ p.words t) :
    p.body? key ≠ none := by
  unfold Passage.words at said
  unfold Passage.body?
  split at said
  case h_1 d updated removed reported =>
    unfold documentWords at said
    have member : t ∈ updated ∧ p.before.subscriptions.isActive t = true ∧ d.key = key := by
      rcases List.mem_append.mp said with left | came
      · split at left
        · simp at left
        · cases left
      · split at came
        case isFalse => cases came
        case isTrue here =>
          have same := List.mem_singleton.mp came
          unfold Document.word at same
          split at same
          · exact ⟨here.1, here.2, (Word.belongs.inj same).symm⟩
          · cases same
    have active : updated.any p.before.subscriptions.isActive = true :=
      List.any_eq_true.mpr ⟨t, member.1, member.2.1⟩
    rw [reported]
    dsimp only
    rw [if_pos ⟨active, member.2.2⟩]
    exact nofun
  case h_2 =>
    split at said
    · simp at said
    · cases said
  case h_3 => cases said

theorem lastBody_of_belongs {key : DocumentKey} (said : .belongs key ∈ heard t span) :
    ∃ d, lastBody key span = some d := by
  obtain ⟨p, member, said⟩ := List.mem_flatMap.mp said
  have there : p ∈ span := List.takeWhile_subset _ member
  have some_body : (lastBody key span).isSome = true := by
    unfold lastBody
    rw [List.findSome?_isSome_iff]
    exact ⟨p, there, Option.isSome_iff_ne_none.mpr (body_of_belongs said)⟩
  exact Option.isSome_iff_exists.mp some_body

end Spans

section Steps

variable {span : List Passage} {s : WatchStream} {p : Passage}

/-- Nothing is collected when a span starts. -/
theorem Tracks.start (empty : s.collected = {}) : Tracks [] s where
  changes t := by
    rw [empty]
    exact ExtTreeMap.getElem?_empty
  updates key := by
    rw [empty]
    exact ExtTreeMap.getElem?_empty
  resets t := by
    rw [empty]
    simp [WipedLast]
  bare t wiped := by simp [Wiped] at wiped

/-- Whoever is to be reset has nothing to resume from. -/
theorem Tracks.frugal (tracks : Tracks span s) : s.Frugal := by
  intro t reset sub entered
  exact (tracks.bare t (wiped_of_last ((tracks.resets t).mp reset)) sub entered).1

/-- A call that names no target adds what it says, if it makes nothing active. -/
theorem Tracks.unnamed (tracks : Tracks span p.before) (unnamed : ∀ t, p.names t = false)
    (quiets : p.before.subscriptions.Quiets p.after.subscriptions)
    (resets : p.after.collected.resets = p.before.collected.resets)
    (changes : ∀ t, p.after.collected.changes[t]? =
      TargetChange.entry (p.words t ++ heard t span))
    (updates : ∀ key, p.after.collected.updates[key]? =
      (p.body? key).or (lastBody key span)) : Tracks (p :: span) p.after where
  changes t := by
    rw [changes, heard_cons, unnamed t]
    rfl
  updates key := by rw [updates, lastBody_cons]
  resets t := by
    rw [resets, tracks.resets, wipedLast_cons, unnamed t]
    rfl
  bare t wiped next there := by
    have earlier : Wiped t span := by
      rcases wiped_cons.mp wiped with wipes | earlier
      · cases (unnamed t).symm.trans (Passage.names_of_wipes wipes)
      · exact earlier
    rcases quiets t next there with ⟨idle, none_there⟩ | ⟨sub, entered, token, active⟩
    · exact ⟨none_there, fun active => nomatch idle.symm.trans active⟩
    · obtain ⟨none_there, last⟩ := tracks.bare t earlier sub entered
      refine ⟨token.trans none_there, fun now => ?_⟩
      rw [wipedLast_cons, unnamed t]
      exact last (active now)

/-- A report that renews the targets that it names takes back what was said of them. -/
theorem Tracks.renewed (tracks : Tracks span p.before) {ids : List TargetId}
    (renewed : p.before.Renewed ids p.after) (names : ∀ t, p.names t = ids.contains t)
    (wipes : ∀ t ∈ ids, p.wipes t = true ↔ t ∈ p.after.collected.resets)
    (silent : ∀ t, p.words t = []) (bodiless : ∀ key, p.body? key = none) :
    Tracks (p :: span) p.after where
  changes t := by
    rw [renewed.changes, heard_cons, names, silent]
    by_cases named : t ∈ ids
    · simp [named, TargetChange.entry]
    · simp [named, tracks.changes]
  updates key := by
    rw [renewed.updates, lastBody_cons, bodiless, tracks.updates]
    rfl
  resets t := by
    rw [wipedLast_cons, names]
    by_cases named : t ∈ ids
    · simp [named, wipes]
    · simp [named, (renewed.spared t named).2, tracks.resets]
  bare t wiped next there := by
    rw [wipedLast_cons, names]
    by_cases named : t ∈ ids
    case pos =>
      have now (bare : next.token = none) (active : next.isActive = true) :
          p.wipes t = true :=
        (wipes t named).mpr ((renewed.resets t named).mpr ⟨next, there, active, bare⟩)
      have bare : next.token = none := by
        rcases wiped_cons.mp wiped with here | earlier
        · obtain ⟨own, entered, -, bare⟩ :=
            (renewed.resets t named).mp ((wipes t named).mp here)
          exact Option.some.inj (entered.symm.trans there) ▸ bare
        · obtain ⟨sub, entered, token⟩ := renewed.entries t named next there
          exact token.trans (tracks.bare t earlier sub entered).1
      exact ⟨bare, fun active => by simp [named, now bare active]⟩
    case neg =>
      have earlier : Wiped t span := by
        rcases wiped_cons.mp wiped with here | earlier
        · have named' := (names t).symm.trans (Passage.names_of_wipes here)
          exact absurd (List.contains_iff_mem.mp named') named
        · exact earlier
      obtain ⟨bare, last⟩ := tracks.bare t earlier next ((renewed.spared t named).1 ▸ there)
      exact ⟨bare, fun active => by simpa [named] using last active⟩

/-- A turn says nothing, and on an open stream it makes nothing active. -/
theorem Tracks.turn {after : WatchStream} (tracks : Tracks span s) (sound : s.Sound)
    (wanted : s.subscriptions.Wanted) (turn : s.Turn after) (opened : s.state = .opened)
    (still : after.state = .opened) : Tracks (⟨s, none, after⟩ :: span) after := by
  obtain ⟨collected, quiets⟩ := turn.quiets sound wanted opened still
  refine Tracks.unnamed (p := ⟨s, none, after⟩) tracks (fun _ => rfl) quiets ?_ ?_ ?_
  · rw [collected]
  · exact fun t => by rw [collected, tracks.changes]; rfl
  · exact fun key => by rw [collected, tracks.updates]; rfl

theorem Tracks.added (tracks : Tracks span s) (sound : s.Sound) {ids : List TargetId}
    (done : (targetsAdded ids s).2 = .ok ()) :
    Tracks (⟨s, some (.targetAdded ids), (targetsAdded ids s).1⟩ :: span)
      (targetsAdded ids s).1 := by
  have renewed := (renewed_targetsAdded ids sound.numbered tracks.frugal done).1
  refine Tracks.renewed (p := ⟨s, some (.targetAdded ids), _⟩) tracks renewed (fun _ => rfl)
    (fun t named => ?_) (fun _ => rfl) fun _ => rfl
  have named' : ids.contains t = true := List.contains_iff_mem.mpr named
  rw [renewed.resets t named]
  simp only [Passage.wipes, named', Bool.true_and, Option.any_eq_true, Bool.and_eq_true,
    Option.isNone_iff_eq_none]

/-- A removal resets nothing, for what it names is inactive after it. -/
theorem Tracks.removed (tracks : Tracks span s) (sound : s.Sound) (wanted : s.subscriptions.Wanted)
    (opened : s.state = .opened) {ids : List TargetId} {cause : Option Status}
    {rejections : List Rejection} (done : (targetsRemoved cause ids s).2 = .ok rejections) :
    Tracks (⟨s, some (.targetRemoved ids cause), (targetsRemoved cause ids s).1⟩ :: span)
      (targetsRemoved cause ids s).1 := by
  obtain ⟨renewed, idle, -⟩ := renewed_targetsRemoved ids sound opened wanted done
  refine Tracks.renewed (p := ⟨s, some (.targetRemoved ids cause), _⟩) tracks renewed
    (fun _ => rfl) (fun t named => ⟨nofun, fun reset => ?_⟩) (fun _ => rfl) fun _ => rfl
  obtain ⟨sub, entered, active, -⟩ := (renewed.resets t named).mp reset
  have active := (Subscriptions.isActive_iff _ t).mpr ⟨sub, entered, active⟩
  cases active.symm.trans (idle t named)

theorem Tracks.document (tracks : Tracks span s) (d : Document) (updated removed : List TargetId) :
    let after := { s with collected := s.collectDocument d updated removed }
    Tracks (⟨s, some (.documentChanged d updated removed), after⟩ :: span) after := by
  refine Tracks.unnamed (p := ⟨s, some (.documentChanged d updated removed), _⟩) tracks
    (fun _ => rfl) (.of_table rfl) (s.grows_collectDocument d updated removed).resets ?_ ?_
  · exact fun t => s.changes_collectDocument d updated removed (tracks.changes t)
  · intro key
    change (s.collectDocument d updated removed).updates[key]? =
      (if updated.any s.subscriptions.isActive = true ∧ d.key = key then some d else none).or
        (lastBody key span)
    rw [s.updates_collectDocument, tracks.updates]
    split <;> rfl

theorem Tracks.current (tracks : Tracks span s) (id : TargetId) (token : ResumeToken) :
    let after := if s.subscriptions.isActive id then
      { s with collected := s.collected.markCurrent id (some token) } else s
    Tracks (⟨s, some (.current id token), after⟩ :: span) after := by
  have words (t : TargetId) (after : WatchStream) :
      Passage.words t ⟨s, some (.current id token), after⟩ =
        if id = t ∧ s.subscriptions.isActive t then [.complete token] else [] := rfl
  intro after
  refine Tracks.unnamed (p := ⟨s, some (.current id token), after⟩) tracks (fun _ => rfl)
    (.of_table ?_) ?_ (fun t => ?_) fun key => ?_
  · change (ite _ _ _ : WatchStream).subscriptions.table = _
    split <;> rfl
  · change (ite _ _ _ : WatchStream).collected.resets = _
    split <;> rfl
  · rw [words]
    change (ite _ _ _ : WatchStream).collected.changes[t]? = _
    by_cases here : id = t ∧ s.subscriptions.isActive t = true
    · obtain ⟨rfl, active⟩ := here
      rw [if_pos active, if_pos ⟨rfl, active⟩, List.singleton_append, TargetChange.entry_cons,
        ← tracks.changes]
      exact (RemoteEvent.changes_edit _ _ _ _).trans
        (by rw [if_pos rfl, ExtTreeMap.getD_eq_getD_getElem?]; rfl)
    · rw [if_neg here, List.nil_append, ← tracks.changes]
      split
      case isFalse => rfl
      case isTrue active =>
        have apart : id ≠ t := fun same => here ⟨same, same ▸ active⟩
        exact (RemoteEvent.changes_edit _ _ _ _).trans (if_neg apart)
  · change (ite _ _ _ : WatchStream).collected.updates[key]? = _
    refine Eq.trans ?_ (tracks.updates key)
    split <;> rfl

/-- So it is after an accepted report that is no snapshot. -/
theorem Tracks.receive (tracks : Tracks span s) (sound : s.Sound)
    (wanted : s.subscriptions.Wanted) (opened : s.state = .opened) {change : WatchChange}
    {outcome : WatchOutcome} (accepted : (s.receive change).2 = .ok outcome)
    (goes_on : ¬change.Closes) :
    Tracks (⟨s, some change, (s.receive change).1⟩ :: span) (s.receive change).1 := by
  unfold WatchStream.receive at accepted ⊢
  rw [if_neg (not_not_intro opened)] at accepted ⊢
  cases change <;> dsimp only at accepted ⊢
  case targetAdded ids =>
    cases done : (targetsAdded ids s).2 with
    | error fault =>
      rw [done] at accepted
      cases accepted
    | ok => exact tracks.added sound done
  case targetRemoved ids cause =>
    cases done : (targetsRemoved cause ids s).2 with
    | error fault =>
      rw [done] at accepted
      cases accepted
    | ok rejections => exact tracks.removed sound wanted opened done
  case documentChanged d updated removed => exact tracks.document d updated removed
  case current id token =>
    split at accepted
    case isTrue => cases accepted
    case isFalse known =>
      have marks := tracks.current id token
      rw [if_neg known]
      split
      case isTrue active => rwa [if_pos active] at marks
      case isFalse idle => rwa [if_neg idle] at marks
  case snapshot version => exact absurd ⟨version, rfl⟩ goes_on

end Steps

/-- The span goes on with each call that does not start a new one. -/
theorem span_cons (p : Passage) (past : List Passage) :
    span (p :: past) = if p.starts then [] else p :: span past := by
  unfold span
  rw [List.takeWhile_cons]
  cases p.starts <;> rfl

theorem opened_of_accepted {s : WatchStream} {change : WatchChange} {outcome : WatchOutcome}
    (accepted : (s.receive change).2 = .ok outcome) : s.state = .opened := by
  unfold receive at accepted
  split at accepted
  case isTrue => cases accepted
  case isFalse opened => exact Decidable.not_not.mp opened

/-- What every logged call keeps: an open stream has collected what its log says. -/
theorem Logged.tracks {past : List Passage} {s : WatchStream} (logged : Logged past s) :
    s.Sound ∧ s.subscriptions.Wanted ∧ (s.state = .opened → Tracks (span past) s) := by
  induction logged with
  | start config =>
    refine ⟨sound_ofConfig config, fun id sub entered => ?_, nofun⟩
    have empty : (ofConfig config).subscriptions.table[id]? = none := ExtTreeMap.getElem?_empty
    cases empty.symm.trans entered
  | @turn past s after logged turn ih =>
    obtain ⟨sound, wanted, tracks⟩ := ih
    refine ⟨(turn.fades sound).1, turn.wanted sound wanted, fun still => ?_⟩
    rw [span_cons]
    by_cases opened : s.state = .opened
    · have goes_on : (⟨s, none, after⟩ : Passage).starts = false := by
        simp [Passage.starts, opened]
      rw [goes_on]
      exact (tracks opened).turn sound wanted turn opened still
    · have starts : (⟨s, none, after⟩ : Passage).starts = true := by
        simp [Passage.starts, opened, still]
      rw [starts]
      exact .start (turn.collected_of_opens opened still)
  | @report past s change outcome logged accepted ih =>
    obtain ⟨sound, wanted, tracks⟩ := ih
    have opened := opened_of_accepted accepted
    have tracks := tracks opened
    refine ⟨(gains_receive sound change).1, wanted_receive sound wanted tracks.frugal accepted,
      fun _ => ?_⟩
    rw [span_cons]
    by_cases closes : change.Closes
    · obtain ⟨version, rfl⟩ := closes
      have starts : Passage.starts ⟨s, some (.snapshot version), (s.receive (.snapshot version)).1⟩
          = true := by
        simp [Passage.starts]
      rw [starts]
      exact .start (by rw [receive_snapshot opened]; rfl)
    · have goes_on : Passage.starts ⟨s, some change, (s.receive change).1⟩ = false := by
        cases change with
        | snapshot version => exact absurd ⟨version, rfl⟩ closes
        | _ => simp [Passage.starts, opened]
      rw [goes_on]
      exact tracks.receive sound wanted opened accepted closes

/-- What was collected, restricted to the active targets, recounts the span. -/
theorem Tracks.recounts {span : List Passage} {s : WatchStream} (tracks : Tracks span s)
    (version : Version) : s.Recounts span (s.flush version).1 := by
  have entry (t : TargetId) : (s.flush version).1.changes[t]? =
      (TargetChange.entry (heard t span)).filter fun _ => s.subscriptions.isActive t := by
    change (s.collected.changes.filter fun id _ => s.subscriptions.isActive id)[t]? = _
    rw [ExtTreeMap.getElem?_filter', tracks.changes]
  have replayed (t : TargetId) (change : TargetChange)
      (entered : (s.flush version).1.changes[t]? = some change) :
      TargetChange.Replays (heard t span) change := by
    rw [entry, Option.filter_eq_some_iff] at entered
    exact TargetChange.eq_of_entry entered.1 ▸ TargetChange.replays_ofWords _
  have updates (key : DocumentKey) :
      (s.flush version).1.updates[key]? = lastBody key span := tracks.updates key
  refine ⟨fun t => ?_, replayed, updates, fun t change entered key added => ?_, fun t => ?_⟩
  · rw [ExtTreeMap.mem_iff_isSome_getElem?, entry, ← TargetChange.isSome_entry]
    cases s.subscriptions.isActive t <;>
      cases TargetChange.entry (heard t span) <;> simp [Option.filter]
  · rw [updates]
    exact lastBody_of_belongs ((replayed t change entered).belongs added)
  · have kept : t ∈ (s.flush version).1.resets ↔
        t ∈ s.collected.resets ∧ s.subscriptions.isActive t = true := by
      change t ∈ s.collected.resets.filter s.subscriptions.isActive ↔ _
      simp [ExtTreeSet.mem_filter, ExtTreeSet.get_eq]
    rw [kept, tracks.resets, and_comm]
    refine and_congr_right fun active => ⟨wiped_of_last, fun wiped => ?_⟩
    obtain ⟨sub, entered, active⟩ := (s.subscriptions.isActive_iff t).mp active
    exact (tracks.bare t wiped sub entered).2 active

/-- The event of a snapshot is the one that the span's calls determine. -/
theorem snapshot_recounts {past : List Passage} {s : WatchStream} (logged : Logged past s)
    (opened : s.state = .opened) (version : Version) :
    ∃ event, (s.receive (.snapshot version)).2 = .ok (.snapshot event) ∧
      event.version = version ∧ s.Recounts (span past) event :=
  ⟨(s.flush version).1, by rw [receive_snapshot opened], rfl,
    (logged.tracks.2.2 opened).recounts version⟩

/-- A log that goes on with some reports. -/
def taking : List WatchChange → List Passage × WatchStream → List Passage × WatchStream
  | [], log => log
  | change :: rest, (past, s) =>
    taking rest (⟨s, some change, (s.receive change).1⟩ :: past, (s.receive change).1)

/-- Whether all the reports are accepted. -/
def accepts : List WatchChange → WatchStream → Bool
  | [], _ => true
  | change :: rest, s => (s.receive change).2.isOk && accepts rest (s.receive change).1

theorem Logged.taking {past : List Passage} {s : WatchStream} (logged : Logged past s)
    (changes : List WatchChange) (accepted : s.accepts changes = true) :
    Logged (WatchStream.taking changes (past, s)).1 (WatchStream.taking changes (past, s)).2 := by
  induction changes generalizing past s with
  | nil => exact logged
  | cons change rest ih =>
    obtain ⟨first, others⟩ := Bool.and_eq_true_iff.mp accepted
    cases done : (s.receive change).2 with
    | error fault =>
      rw [done] at first
      cases first
    | ok outcome => exact ih (logged.report done) others

/-- A log that goes on with a turn. -/
def turning (log : List Passage × WatchStream) (after : WatchStream) : List Passage × WatchStream :=
  (⟨log.2, none, after⟩ :: log.1, after)

/-- Somebody listens to a collection, and one of its documents is reported. -/
def begun : List Passage × WatchStream :=
  let s : WatchStream := .ofConfig { initial := .zero, longest := .zero }
  let listening := turning ([], s) (s.listen (.query (Query.ofPath "c"))).2
  taking [.targetAdded [⟨1⟩], .documentChanged ⟨⟨"c/a"⟩, ⟨1⟩, some ∅, false⟩ [⟨1⟩] []]
    (turning listening (listening.2.opened .zero))

/-- Before the snapshot they leave and come back, and another document is reported. -/
def churned : List Passage × WatchStream :=
  let left := turning begun (begun.2.unlisten ⟨1⟩)
  taking [.targetRemoved [⟨1⟩] none, .targetAdded [⟨1⟩],
      .documentChanged ⟨⟨"c/b"⟩, ⟨2⟩, some ∅, false⟩ [⟨1⟩] [], .current ⟨1⟩ ⟨[7]⟩]
    (turning left (left.2.listen (.query (Query.ofPath "c"))).2)

theorem logged_churned : Logged churned.1 churned.2 := by
  refine .taking (.turn (.turn (.taking (.turn (.turn (.start _) ?_) ?_) _ ?_) ?_) ?_) _ ?_
  · exact .listen _ _
  · exact .opened _ _
  · decide +kernel
  · exact .unlisten _ _
  · exact .listen _ _
  · decide +kernel

/-- Of the first document nothing is left but its state. -/
theorem churned_recounted :
    Logged churned.1 churned.2 ∧ churned.2.state = .opened ∧
      heard ⟨1⟩ (span churned.1) = [.complete ⟨[7]⟩, .belongs ⟨"c/b"⟩] ∧
      (lastBody ⟨"c/a"⟩ (span churned.1)).isSome = true ∧
      ∃ event, (churned.2.receive (.snapshot ⟨3⟩)).2 = .ok (.snapshot event) ∧
        event.version = ⟨3⟩ ∧ churned.2.Recounts (span churned.1) event := by
  have opened : churned.2.state = .opened := by decide +kernel
  refine ⟨logged_churned, opened, by decide +kernel, by decide +kernel, ?_⟩
  exact snapshot_recounts logged_churned opened ⟨3⟩

end WatchStream

end LiveQuery
