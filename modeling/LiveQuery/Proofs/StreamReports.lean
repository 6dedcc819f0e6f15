import LiveQuery.Proofs.StreamRun

/-!
# Reports on the watch stream

What each report of the server does to the targets of a stream. A report on
several targets is taken in target by target, and a fault on one of them leaves
what was done to those before it: a removal with a cause that does not fit has
by then released some targets, and nobody is told that they were rejected.
-/

namespace LiveQuery

open Std

namespace WatchChange

/-- The report says that the target is added. -/
def Adds (change : WatchChange) (id : TargetId) : Prop :=
  ∃ ids, change = .targetAdded ids ∧ id ∈ ids

/-- The report says that the target is complete. -/
def Completes (change : WatchChange) (id : TargetId) : Prop := ∃ token, change = .current id token

/-- The report closes what was reported since the last one of its kind. -/
def Closes (change : WatchChange) : Prop := ∃ version, change = .snapshot version

end WatchChange

namespace RemoteEvent

/-- What else is collected resets no target and completes none. -/
structure Grows (e after : RemoteEvent) : Prop where
  resets : after.resets = e.resets
  completes : ∀ (id : TargetId) change, after.changes[id]? = some change → change.current = true →
    ∃ old, e.changes[id]? = some old ∧ old.current = true

theorem Grows.refl (e : RemoteEvent) : e.Grows e :=
  ⟨rfl, fun _ change here complete => ⟨change, here, complete⟩⟩

theorem Grows.trans {e middle after : RemoteEvent} (first : e.Grows middle)
    (second : middle.Grows after) : e.Grows after where
  resets := second.resets.trans first.resets
  completes id change here complete := by
    obtain ⟨old, there, complete⟩ := second.completes id change here complete
    exact first.completes id old there complete

/-- One target after the other. -/
theorem Grows.foldl {collect : RemoteEvent → TargetId → RemoteEvent}
    (each : ∀ (e : RemoteEvent) id, e.Grows (collect e id)) (ids : List TargetId)
    (e : RemoteEvent) : e.Grows (ids.foldl collect e) := by
  induction ids generalizing e with
  | nil => exact .refl e
  | cons id rest ih => exact (each e id).trans (ih (collect e id))

theorem changes_edit (e : RemoteEvent) (id : TargetId) (f : TargetChange → TargetChange)
    (other : TargetId) :
    (e.edit id f).changes[other]? =
      if id = other then some (f (e.changes.getD id {})) else e.changes[other]? := by
  simp [edit, ExtTreeMap.getElem?_insert]

/-- An edit that completes no target. -/
theorem grows_edit (e : RemoteEvent) (id : TargetId) (f : TargetChange → TargetChange)
    (same : ∀ change, (f change).current = change.current) (updates : Documents) :
    e.Grows { e.edit id f with updates } := by
  refine ⟨rfl, fun other change here complete => ?_⟩
  have here : (e.edit id f).changes[other]? = some change := here
  rw [changes_edit] at here
  split at here
  case isFalse => exact ⟨change, here, complete⟩
  case isTrue own =>
    obtain rfl := Option.some.inj here
    rw [same, ExtTreeMap.getD_eq_getD_getElem?, own] at complete
    cases known : e.changes[other]? with
    | none =>
      rw [known] at complete
      exact nomatch complete
    | some old => exact ⟨old, rfl, by simpa [known] using complete⟩

theorem grows_collectUpdate (d : Document) (e : RemoteEvent) (id : TargetId) :
    e.Grows (WatchStream.collectUpdate d e id) := by
  unfold WatchStream.collectUpdate
  split
  · exact grows_edit e id (·.add d.key) (fun _ => rfl) _
  · exact grows_edit e id (·.remove d.key) (fun _ => rfl) _

end RemoteEvent

/-- What a snapshot can make of an entry: an active one may become current if the snapshot says
    so. -/
structure Subscription.Waxes (completed : Prop) (sub next : Subscription) : Prop where
  id : next.id = sub.id
  listening : next.listening = sub.listening
  active : next.isActive = sub.isActive
  current : next.current = true → sub.current = true ∨ sub.isActive = true ∧ completed

namespace Subscriptions

/-- What a snapshot can make of the table: entries neither come nor go, and those of targets that
    are not completed stay as they are. -/
structure Stamped (s : Subscriptions) (completed : TargetId → Prop) (after : Subscriptions) :
    Prop where
  entry : ∀ id, (s.table[id]? = none ∧ after.table[id]? = none) ∨
    ∃ sub next : Subscription, s.table[id]? = some sub ∧ after.table[id]? = some next ∧
      sub.Waxes (completed id) next
  others : ∀ id, ¬completed id → after.table[id]? = s.table[id]?
  nextId : s.nextId ≤ after.nextId
  streamOpen : after.streamOpen = s.streamOpen

theorem Stamped.refl (s : Subscriptions) (completed : TargetId → Prop) :
    s.Stamped completed s where
  entry id := by
    cases entered : s.table[id]? with
    | none => exact .inl ⟨rfl, rfl⟩
    | some sub => exact .inr ⟨sub, sub, rfl, rfl, rfl, rfl, rfl, .inl⟩
  others _ _ := rfl
  nextId := Nat.le_refl _
  streamOpen := rfl

theorem Stamped.trans {s middle after : Subscriptions} {completed : TargetId → Prop}
    (first : s.Stamped completed middle) (second : middle.Stamped completed after) :
    s.Stamped completed after where
  entry id := by
    rcases first.entry id with ⟨absent, gone⟩ | ⟨sub, next, entered, there, waxes⟩
    · rcases second.entry id with ⟨-, none_after⟩ | ⟨_, _, impossible, -, -⟩
      · exact .inl ⟨absent, none_after⟩
      · exact nomatch gone.symm.trans impossible
    · rcases second.entry id with ⟨impossible, -⟩ | ⟨_, last, again, after_there, waxes'⟩
      · exact nomatch there.symm.trans impossible
      · obtain rfl := Option.some.inj (there.symm.trans again)
        refine .inr ⟨sub, last, entered, after_there, waxes'.id.trans waxes.id,
          waxes'.listening.trans waxes.listening, waxes'.active.trans waxes.active,
          fun current => ?_⟩
        rcases waxes'.current current with before | ⟨active, completed⟩
        · exact waxes.current before
        · exact .inr ⟨waxes.active ▸ active, completed⟩
  others id spared := (second.others id spared).trans (first.others id spared)
  nextId := Nat.le_trans first.nextId second.nextId
  streamOpen := second.streamOpen.trans first.streamOpen

theorem stamped_markCurrent {s : Subscriptions} (numbered : s.Numbered)
    {completed : TargetId → Prop} {id : TargetId} (here : completed id)
    (token : Option ResumeToken) (version : Version) :
    s.Stamped completed (s.markCurrent id token version) where
  entry other := by
    rw [(edited_markCurrent numbered id token version).table]
    cases entered : s.table[other]? with
    | none =>
      refine .inl ⟨rfl, ?_⟩
      split
      case isTrue same => rw [same, entered, Option.map_none]
      case isFalse => rfl
    | some sub =>
      refine .inr ⟨sub, if id = other then marked token version sub else sub, rfl, ?_, ?_⟩
      · split
        case isTrue same => rw [same, entered, Option.map_some]
        case isFalse => rfl
      · split
        case isFalse => exact ⟨rfl, rfl, rfl, .inl⟩
        case isTrue same =>
          unfold marked
          split
          case isTrue active => exact ⟨rfl, rfl, rfl, fun _ => .inr ⟨active, same ▸ here⟩⟩
          case isFalse => exact ⟨rfl, rfl, rfl, .inl⟩
  others other spared := by
    rw [(edited_markCurrent numbered id token version).table, if_neg]
    exact fun same => spared (same ▸ here)
  nextId := (edited_markCurrent numbered id token version).nextId
  streamOpen := (edited_markCurrent numbered id token version).streamOpen

/-- The numbers stay in order under a snapshot. -/
theorem Numbered.stamped {s after : Subscriptions} (numbered : s.Numbered)
    {completed : TargetId → Prop} (stamped : s.Stamped completed after) : after.Numbered := by
  intro id next there
  rcases stamped.entry id with ⟨-, gone⟩ | ⟨sub, _, entered, again, waxes⟩
  · exact nomatch there.symm.trans gone
  · obtain rfl := Option.some.inj (there.symm.trans again)
    obtain ⟨own, given⟩ := numbered id sub entered
    exact ⟨waxes.id.trans own, Nat.lt_of_lt_of_le given stamped.nextId⟩

/-- Marking what is complete, one target after the other. -/
theorem stamped_foldl {s : Subscriptions} (numbered : s.Numbered) {completed : TargetId → Prop}
    (version : Version) (changes : List (TargetId × TargetChange))
    (complete : ∀ id change, (id, change) ∈ changes → change.current = true → completed id) :
    s.Stamped completed (changes.foldl (fun subs (id, change) =>
      if change.current then subs.markCurrent id change.token version else subs) s) := by
  induction changes generalizing s with
  | nil => exact .refl s completed
  | cons first rest ih =>
    obtain ⟨id, change⟩ := first
    have step : s.Stamped completed
        (if change.current then s.markCurrent id change.token version else s) := by
      split
      case isTrue here =>
        exact stamped_markCurrent numbered (complete id change List.mem_cons_self here) _ _
      case isFalse => exact .refl s completed
    exact step.trans (ih (numbered.stamped step) fun other change member =>
      complete other change (List.mem_cons_of_mem _ member))

end Subscriptions

namespace WatchStream

/-- Documents complete no target. -/
theorem grows_collectDocument (s : WatchStream) (d : Document) (updated removed : List TargetId) :
    s.collected.Grows (s.collectDocument d updated removed) := by
  unfold collectDocument
  refine RemoteEvent.Grows.trans (.foldl (RemoteEvent.grows_collectUpdate d) _ _) (.foldl ?_ _ _)
  exact fun e id => RemoteEvent.grows_edit e id (·.remove d.key) (fun _ => rfl) _

section Reports

variable {s after : WatchStream}

/-- Collecting more on the same subscriptions keeps a stream sound if no current target is reset,
    and marks no targets but those of `marked`. -/
theorem Sound.collect (sound : s.Sound) {collected : RemoteEvent}
    (resets : ∀ id ∈ collected.resets, ¬s.Current id) : Sound { s with collected } :=
  ⟨sound.numbered, sound.opened, sound.current, resets⟩

theorem gains_collect {marked : TargetId → Prop} {collected : RemoteEvent}
    (reports : ∀ id change, collected.changes[id]? = some change → change.current = true →
      (∃ old, s.collected.changes[id]? = some old ∧ old.current = true) ∨ marked id) :
    s.Gains (fun _ => False) marked (fun _ => False) { s with collected } where
  live _ live := .inl live
  marked id here := by
    obtain ⟨live, change, here, complete⟩ := here
    exact (reports id change here complete).imp_left (⟨live, ·⟩)
  current _ current := .inl current
  retires := .refl _

/-- An accepted addition is one answer less to wait for. What was reported of the target before is
    taken back. -/
theorem targetAdded_cases {id : TargetId} (done : s.targetAdded id = .ok after) :
    ∃ sub collected, s.subscriptions.table[id]? = some sub ∧ sub.adds ≠ 0 ∧
      after = { s with
        subscriptions := s.subscriptions.put { sub with adds := sub.adds - 1 }, collected } ∧
      collected.changes = s.collected.changes.erase id ∧
      ∀ other ∈ collected.resets, other = id ∨ other ∈ s.collected.resets := by
  unfold targetAdded at done
  cases answered : s.subscriptions.added id with
  | error fault =>
    rw [answered] at done
    cases done
  | ok result =>
    obtain ⟨outcome, subscriptions⟩ := result
    obtain ⟨sub, entered, awaited, rfl⟩ := Subscriptions.added_cases answered
    rw [answered] at done
    obtain rfl := Except.ok.inj done
    refine ⟨sub, _, entered, awaited, rfl, ?_, ?_⟩
    · split <;> rfl
    · split
      · exact fun _ reset => .inr reset
      · intro other reset
        exact (ExtTreeSet.mem_insert.mp reset).imp_left (LawfulEqOrd.eq_of_compare · |>.symm)
      · exact fun _ reset => .inr (ExtTreeSet.mem_of_mem_erase reset)

/-- An accepted addition can make its target live, and does nothing else. -/
theorem gains_targetAdded (sound : s.Sound) {id : TargetId} (done : s.targetAdded id = .ok after) :
    after.Sound ∧ s.Gains (· = id) (fun _ => False) (fun _ => False) after ∧ s.Calm after := by
  obtain ⟨sub, collected, entered, awaited, rfl, changes, resets⟩ := targetAdded_cases done
  obtain ⟨own, given⟩ := sound.numbered id sub entered
  subst own
  have idle : ¬s.Current sub.id := by
    intro current
    obtain ⟨other, there, active⟩ :=
      (s.subscriptions.isActive_iff sub.id).mp (sound.current sub.id current).2
    obtain rfl := Option.some.inj (entered.symm.trans there)
    exact awaited (beq_iff_eq.mp (Bool.and_eq_true_iff.mp active).2)
  let next : Subscription := { sub with adds := sub.adds - 1 }
  have edited : s.subscriptions.Edited sub.id (some next) (s.subscriptions.put next) :=
    s.subscriptions.edited_put next
  have decent : ∀ sub', some next = some sub' →
      s.Decent (· = sub.id) sub.id sub' (s.subscriptions.put next) := by
    rintro _ ⟨rfl⟩
    refine ⟨rfl, given, fun _ _ => .inr rfl, fun current => ?_, ?_⟩
    · exact absurd ((s.subscriptions.isCurrent_iff sub.id).mpr ⟨sub, entered, current⟩) idle
    · exact fun absent => nomatch entered.symm.trans absent
  have gains : s.Gains (· = sub.id) (fun _ => False) (fun _ => False)
      { s with subscriptions := s.subscriptions.put next, collected } := by
    refine gains_edit edited decent fun other change here complete => ?_
    rw [changes, ExtTreeMap.getElem?_erase] at here
    split at here
    case isTrue => cases here
    case isFalse differs =>
      exact ⟨⟨change, here, complete⟩, fun same => differs (same ▸ ReflOrd.compare_self)⟩
  refine ⟨sound.edit edited decent fun other reset => ?_, gains, ?_, ?_⟩
  · rcases resets other reset with rfl | before
    · exact idle
    · exact sound.resets other before
  · rintro other ⟨old, there, heard⟩
    by_cases same : sub.id = other
    · subst same
      obtain rfl := Option.some.inj (entered.symm.trans there)
      exact ⟨next, by rw [edited.table, if_pos rfl], heard⟩
    · exact ⟨old, by rw [edited.table, if_neg same, there], heard⟩
  · intro other
    rw [Bool.eq_iff_iff]
    refine ⟨fun current => (gains.current other current).elim (·) False.elim, fun current => ?_⟩
    have differs : sub.id ≠ other := fun same => idle (same ▸ current)
    rw [Subscriptions.isCurrent, edited.table, if_neg differs]
    exact current

/-- The same holds of additions one after the other, up to the first that is a fault. -/
theorem gains_targetsAdded (ids : List TargetId) (sound : s.Sound) :
    (targetsAdded ids s).1.Sound ∧
      s.Gains (· ∈ ids) (fun _ => False) (fun _ => False) (targetsAdded ids s).1 ∧
      s.Calm (targetsAdded ids s).1 := by
  induction ids generalizing s with
  | nil => exact ⟨sound, .refl s, .refl s⟩
  | cons id rest ih =>
    unfold targetsAdded
    cases done : s.targetAdded id with
    | error fault => exact ⟨sound, .refl s, .refl s⟩
    | ok next =>
      obtain ⟨sound, gains, calm⟩ := gains_targetAdded sound done
      obtain ⟨sound', gains', calm'⟩ := ih sound
      have first : s.Gains (· ∈ id :: rest) (fun _ => False) (fun _ => False) next :=
        gains.widen (fun _ same => List.mem_cons.mpr (.inl same)) (fun _ => (·)) fun _ => (·)
      have second : next.Gains (· ∈ id :: rest) (fun _ => False) (fun _ => False) _ :=
        gains'.widen (fun _ => List.mem_cons_of_mem id) (fun _ => (·)) fun _ => (·)
      exact ⟨sound', first.trans second, calm.trans calm'⟩

/-- An accepted removal releases its target, and rejects it if there is a cause and somebody
    listens. Without a cause the entry may stay, no more active and no more current than it was. -/
theorem targetRemoved_cases (sound : s.Sound) {cause : Option Status} {id : TargetId}
    {rejections : List Rejection} (done : s.targetRemoved cause id = .ok (rejections, after)) :
    ∃ sub entry subscriptions, s.subscriptions.table[id]? = some sub ∧
      s.subscriptions.Edited id entry subscriptions ∧
      after = { s with subscriptions, collected := s.collected.discard id } ∧
      (entry = none ∧ (sub.listening = false ∧ rejections = [] ∨
          sub.listening = true ∧ ∃ status, cause = some status ∧ rejections = [⟨id, status⟩]) ∨
        cause = none ∧ rejections = [] ∧ ∃ next, entry = some next ∧ sub.Wanes next) := by
  unfold targetRemoved at done
  cases answered : s.subscriptions.removed id cause with
  | error fault =>
    rw [answered] at done
    cases done
  | ok result =>
    obtain ⟨outcome, subscriptions⟩ := result
    rw [answered] at done
    obtain ⟨rfl, rfl⟩ := Prod.mk.inj (Except.ok.inj done)
    obtain ⟨sub, entered, ⟨edited, ⟨unheard, rfl⟩ | ⟨heard, status, rfl, rfl⟩⟩ |
      ⟨rfl, plain, next, edited, wanes⟩⟩ := Subscriptions.removed_cases sound.numbered answered
    · exact ⟨sub, none, _, entered, edited, rfl, .inl ⟨rfl, .inl ⟨unheard, rfl⟩⟩⟩
    · exact ⟨sub, none, _, entered, edited, rfl, .inl ⟨rfl, .inr ⟨heard, status, rfl, rfl⟩⟩⟩
    · refine ⟨sub, some next, _, entered, edited, rfl, .inr ⟨rfl, ?_, next, rfl, wanes⟩⟩
      split
      case h_1 status => exact absurd rfl (plain status)
      case h_2 => rfl

/-- A removal makes no target live, marked or current. -/
theorem fades_targetRemoved (sound : s.Sound) {cause : Option Status} {id : TargetId}
    {rejections : List Rejection} (done : s.targetRemoved cause id = .ok (rejections, after)) :
    after.Sound ∧ s.Fades after := by
  obtain ⟨sub, entry, subscriptions, entered, edited, rfl, kind⟩ := targetRemoved_cases sound done
  obtain ⟨own, given⟩ := sound.numbered id sub entered
  have decent : ∀ next, entry = some next →
      s.Decent (fun _ => False) id next subscriptions := by
    rintro next rfl
    obtain ⟨gone, -⟩ | ⟨-, -, _, same, wanes⟩ := kind
    · cases gone
    obtain rfl := Option.some.inj same
    refine ⟨wanes.id.trans own, Nat.lt_of_lt_of_le given edited.nextId, ?_, ?_, ?_⟩
    · exact fun _ active =>
        .inl ((s.subscriptions.isActive_iff id).mpr ⟨sub, entered, wanes.active active⟩)
    · intro current
      obtain ⟨before, alike⟩ := wanes.current current
      have before : s.Current id := (s.subscriptions.isCurrent_iff id).mpr ⟨sub, entered, before⟩
      obtain ⟨other, there, active⟩ :=
        (s.subscriptions.isActive_iff id).mp (sound.current id before).2
      obtain rfl := Option.some.inj (entered.symm.trans there)
      exact ⟨alike.trans active, before⟩
    · exact fun absent => nomatch entered.symm.trans absent
  refine ⟨sound.edit edited decent ?_, gains_edit edited decent ?_⟩
  · exact fun other reset => sound.resets other (ExtTreeSet.mem_of_mem_erase reset)
  · intro other change here complete
    have here : (s.collected.changes.erase id)[other]? = some change := here
    rw [ExtTreeMap.getElem?_erase] at here
    split at here
    case isTrue => cases here
    case isFalse => exact ⟨⟨change, here, complete⟩, fun impossible => impossible⟩

theorem fades_targetsRemoved (cause : Option Status) (ids : List TargetId) (sound : s.Sound) :
    (targetsRemoved cause ids s).1.Sound ∧ s.Fades (targetsRemoved cause ids s).1 := by
  induction ids generalizing s with
  | nil => exact ⟨sound, .refl s⟩
  | cons id rest ih =>
    unfold targetsRemoved
    cases done : s.targetRemoved cause id with
    | error fault => exact ⟨sound, .refl s⟩
    | ok result =>
      obtain ⟨rejections, next⟩ := result
      obtain ⟨sound, fades⟩ := fades_targetRemoved sound done
      obtain ⟨sound', fades'⟩ := ih sound
      exact ⟨sound', fades.trans fades'⟩

/-- Removals without a cause reject nobody, whoever listened still does, and the targets that are
    not named stay as they are. -/
theorem targetsRemoved_uncaused (ids : List TargetId) (sound : s.Sound) :
    (∀ rejections, (targetsRemoved none ids s).2 = .ok rejections → rejections = []) ∧
      (∀ id, s.Heard id → (targetsRemoved none ids s).1.Heard id) ∧
      ∀ id ∉ ids, (targetsRemoved none ids s).1.subscriptions.table[id]? =
        s.subscriptions.table[id]? := by
  induction ids generalizing s with
  | nil => exact ⟨fun _ done => (Except.ok.inj done).symm, fun _ heard => heard, fun _ _ => rfl⟩
  | cons id rest ih =>
    unfold targetsRemoved
    cases done : s.targetRemoved none id with
    | error fault => exact ⟨nofun, fun _ heard => heard, fun _ _ => rfl⟩
    | ok result =>
      obtain ⟨first, next⟩ := result
      obtain ⟨plain, heard, others⟩ := ih (fades_targetRemoved sound done).1
      obtain ⟨sub, entry, subscriptions, entered, edited, rfl, kind⟩ :=
        targetRemoved_cases sound done
      have none_first : first = [] := by
        rcases kind with ⟨-, ⟨-, none_first⟩ | ⟨-, status, impossible, -⟩⟩ | ⟨-, none_first, -⟩
        · exact none_first
        · cases impossible
        · exact none_first
      refine ⟨fun rejections accepted => ?_, fun other here => heard other ?_,
        fun other unnamed => ?_⟩
      · dsimp only at accepted
        cases outcome : (targetsRemoved none rest _).2 with
        | error fault =>
          rw [outcome] at accepted
          cases accepted
        | ok later =>
          rw [outcome] at accepted
          rw [← Except.ok.inj accepted, none_first, plain later outcome]
          rfl
      · obtain ⟨old, there, listening⟩ := here
        by_cases same : id = other
        · subst same
          obtain rfl := Option.some.inj (entered.symm.trans there)
          rcases kind with ⟨-, ⟨unheard, -⟩ | ⟨-, status, impossible, -⟩⟩ | ⟨-, -, next, rfl, wanes⟩
          · exact nomatch listening.symm.trans unheard
          · cases impossible
          · exact ⟨next, by rw [edited.table, if_pos rfl], wanes.listening.trans listening⟩
        · exact ⟨old, by rw [edited.table, if_neg same, there], listening⟩
      · obtain ⟨differs, unnamed⟩ := not_or.mp (mt List.mem_cons.mpr unnamed)
        rw [others other unnamed, edited.table, if_neg (Ne.symm differs)]

/-- Removals with a cause fit if every target is known and none comes up twice. -/
structure Fits (s : WatchStream) (ids : List TargetId) : Prop where
  distinct : ids.Nodup
  known : ∀ id ∈ ids, id ∈ s.subscriptions.table

/-- Removals with a cause break after those of `front`: the next target is not known any more. -/
structure Breaks (s : WatchStream) (front ids : List TargetId) : Prop where
  fits : s.Fits front
  broken : ∃ bad rest, ids = front ++ bad :: rest ∧ (bad ∈ front ∨ bad ∉ s.subscriptions.table)

/-- The stream without one target, and without what was said of it. -/
def without (s : WatchStream) (id : TargetId) : WatchStream :=
  { s with subscriptions := s.subscriptions.release id, collected := s.collected.discard id }

theorem mem_without {id other : TargetId} :
    other ∈ (s.without id).subscriptions.table ↔ id ≠ other ∧ other ∈ s.subscriptions.table := by
  rw [ExtTreeMap.mem_iff_isSome_getElem?, ExtTreeMap.mem_iff_isSome_getElem?]
  change (s.subscriptions.release id).table[other]?.isSome ↔ _
  rw [Subscriptions.table_release]
  by_cases same : id = other <;> simp [same]

theorem fits_cons {id : TargetId} {rest : List TargetId} :
    s.Fits (id :: rest) ↔ id ∈ s.subscriptions.table ∧ (s.without id).Fits rest := by
  constructor
  · rintro ⟨distinct, known⟩
    obtain ⟨once, distinct⟩ := List.nodup_cons.mp distinct
    refine ⟨known id List.mem_cons_self, distinct, fun other member => mem_without.mpr ⟨?_, ?_⟩⟩
    · exact fun same => once (same ▸ member)
    · exact known other (List.mem_cons_of_mem id member)
  · rintro ⟨here, distinct, known⟩
    refine ⟨List.nodup_cons.mpr ⟨fun again => ?_, distinct⟩, fun other member => ?_⟩
    · exact (mem_without.mp (known id again)).1 rfl
    · rcases List.mem_cons.mp member with rfl | member
      · exact here
      · exact (mem_without.mp (known other member)).2

/-- Removals with a cause that do not fit break somewhere. -/
theorem fits_or_breaks (s : WatchStream) (ids : List TargetId) :
    s.Fits ids ∨ ∃ front, s.Breaks front ids := by
  induction ids generalizing s with
  | nil => exact .inl ⟨List.nodup_nil, nofun⟩
  | cons id rest ih =>
    by_cases known : id ∈ s.subscriptions.table
    case neg => exact .inr ⟨[], ⟨List.nodup_nil, nofun⟩, id, rest, rfl, .inr known⟩
    case pos =>
      rcases ih (s.without id) with fits | ⟨front, fits, bad, more, rfl, broken⟩
      · exact .inl (fits_cons.mpr ⟨known, fits⟩)
      · refine .inr ⟨id :: front, fits_cons.mpr ⟨known, fits⟩, bad, more, rfl, ?_⟩
        rcases broken with again | unknown
        · exact .inl (List.mem_cons_of_mem id again)
        · by_cases same : id = bad
          · exact .inl (List.mem_cons.mpr (.inl same.symm))
          · exact .inr fun there => unknown (mem_without.mpr ⟨same, there⟩)

/-- Removals with a cause that fit release their targets, and reject those that somebody listens
    to. What follows them is taken in after that. -/
theorem targetsRemoved_append (status : Status) {front : List TargetId} (fits : s.Fits front) :
    ∃ rejections middle,
      (∀ r : Rejection, r ∈ rejections ↔
        r.status = status ∧ r.target ∈ front ∧ s.Heard r.target) ∧
      (∀ id, middle.subscriptions.table[id]? =
        if id ∈ front then none else s.subscriptions.table[id]?) ∧
      ∀ rest, targetsRemoved (some status) (front ++ rest) s =
        ((targetsRemoved (some status) rest middle).1,
          (targetsRemoved (some status) rest middle).2.map (rejections ++ ·)) := by
  induction front generalizing s with
  | nil =>
    refine ⟨[], s, by simp, by simp, fun rest => ?_⟩
    rw [List.nil_append]
    rcases targetsRemoved (some status) rest s with ⟨after, _ | _⟩ <;> rfl
  | cons id front ih =>
    obtain ⟨known, fits⟩ := fits_cons.mp fits
    obtain ⟨sub, entered⟩ :=
      Option.isSome_iff_exists.mp (ExtTreeMap.mem_iff_isSome_getElem?.mp known)
    let heard := if sub.listening then [Rejection.mk id status] else []
    have done : s.targetRemoved (some status) id = .ok (heard, s.without id) := by
      unfold targetRemoved Subscriptions.removed
      rw [entered]
      cases listening : sub.listening <;>
        simp [heard, listening, bind, Except.bind, pure, Except.pure, without]
    obtain ⟨rejections, middle, members, table, append⟩ := ih fits
    have first (r : Rejection) :
        r ∈ heard ↔ r.status = status ∧ r.target = id ∧ s.Heard r.target := by
      obtain ⟨target, cause⟩ := r
      have own : s.Heard id ↔ sub.listening = true := by simp [Heard, entered]
      by_cases same : target = id
      · subst same
        cases listening : sub.listening <;> simp [heard, own, listening]
      · cases listening : sub.listening <;> simp [heard, listening, same]
    have later (r : Rejection) (member : r.target ∈ front) :
        (s.without id).Heard r.target ↔ s.Heard r.target := by
      have differs : id ≠ r.target := (mem_without.mp (fits.known _ member)).1
      unfold Heard without
      simp [differs]
    refine ⟨heard ++ rejections, middle, fun r => ?_, fun other => ?_, fun rest => ?_⟩
    · rw [List.mem_append, first, members, List.mem_cons, or_and_right, and_or_left,
        and_congr_right (later r)]
    · rw [table]
      change (if _ then none else (s.subscriptions.release id).table[other]?) = _
      rw [Subscriptions.table_release]
      by_cases same : id = other
      · simp [same]
      · simp [same, Ne.symm same]
    · rw [List.cons_append, targetsRemoved, done]
      dsimp only
      rw [append]
      rcases targetsRemoved (some status) rest middle with ⟨after, _ | _⟩ <;> simp [Except.map]

theorem targetsRemoved_fitting (status : Status) {ids : List TargetId} (fits : s.Fits ids) :
    ∃ rejections, (targetsRemoved (some status) ids s).2 = .ok rejections ∧
      (∀ r : Rejection, r ∈ rejections ↔
        r.status = status ∧ r.target ∈ ids ∧ s.Heard r.target) ∧
      ∀ id, (targetsRemoved (some status) ids s).1.subscriptions.table[id]? =
        if id ∈ ids then none else s.subscriptions.table[id]? := by
  obtain ⟨rejections, middle, members, table, append⟩ := targetsRemoved_append status fits
  have done := append []
  rw [List.append_nil] at done
  rw [done]
  refine ⟨rejections, ?_, members, table⟩
  simp [targetsRemoved, Except.map]

theorem targetsRemoved_breaking (status : Status) {front ids : List TargetId}
    (breaks : s.Breaks front ids) :
    (∃ fault, (targetsRemoved (some status) ids s).2 = .error fault) ∧
      ∀ id, (targetsRemoved (some status) ids s).1.subscriptions.table[id]? =
        if id ∈ front then none else s.subscriptions.table[id]? := by
  obtain ⟨fits, bad, rest, rfl, broken⟩ := breaks
  obtain ⟨rejections, middle, -, table, append⟩ := targetsRemoved_append status fits
  have unknown : middle.subscriptions.table[bad]? = none := by
    rw [table]
    rcases broken with again | unknown
    · rw [if_pos again]
    · rw [ExtTreeMap.getElem?_eq_none unknown, ite_self]
  have stopped : targetsRemoved (some status) (bad :: rest) middle =
      (middle, .error (.unknownTarget bad)) := by
    simp [targetsRemoved, targetRemoved, Subscriptions.removed, unknown, bind, Except.bind]
  rw [append, stopped]
  exact ⟨⟨_, rfl⟩, table⟩

/-- A snapshot makes the marked targets current, and nothing is collected after it. -/
theorem stamped_flush (sound : s.Sound) (version : Version) :
    s.subscriptions.Stamped
      (fun id => ∃ change, (s.flush version).1.changes[id]? = some change ∧ change.current = true)
      (s.flush version).2.subscriptions :=
  Subscriptions.stamped_foldl sound.numbered version _ fun _ change member complete =>
    ⟨change, ExtTreeMap.mem_toList_iff_getElem?_eq_some.mp member, complete⟩

theorem gains_flush (sound : s.Sound) (opened : s.state = .opened) (version : Version) :
    (s.flush version).2.Sound ∧
      s.Gains (fun _ => False) (fun _ => False) s.Marked (s.flush version).2 := by
  have stamped := stamped_flush sound version
  have entry {id : TargetId} {next : Subscription}
      (there : (s.flush version).2.subscriptions.table[id]? = some next) :
      ∃ sub, s.subscriptions.table[id]? = some sub ∧ next.isActive = sub.isActive ∧
        (next.current = true → s.Current id ∨ s.Marked id) := by
    rcases stamped.entry id with ⟨-, gone⟩ | ⟨sub, _, entered, again, waxes⟩
    · exact nomatch there.symm.trans gone
    obtain rfl := Option.some.inj (there.symm.trans again)
    refine ⟨sub, entered, waxes.active, fun current => ?_⟩
    rcases waxes.current current with before | ⟨active, change, here, complete⟩
    · exact .inl ((s.subscriptions.isCurrent_iff id).mpr ⟨sub, entered, before⟩)
    · have kept : (s.collected.changes.filter fun id _ => s.subscriptions.isActive id)[id]? =
          some change := here
      rw [ExtTreeMap.getElem?_filter', Option.filter_eq_some_iff] at kept
      exact .inr ⟨⟨opened, kept.2⟩, change, kept.1, complete⟩
  have current {id : TargetId} (current : (s.flush version).2.Current id) :
      s.Current id ∨ s.Marked id := by
    obtain ⟨next, there, current⟩ := (Subscriptions.isCurrent_iff _ id).mp current
    obtain ⟨-, -, -, completed⟩ := entry there
    exact completed current
  have live {id : TargetId} : (s.flush version).2.Live id ↔ s.Live id := by
    unfold Live
    rw [Subscriptions.isActive_iff, Subscriptions.isActive_iff]
    refine and_congr_right fun _ => ⟨?_, ?_⟩
    · rintro ⟨next, there, active⟩
      obtain ⟨sub, entered, same, -⟩ := entry there
      exact ⟨sub, entered, same ▸ active⟩
    · rintro ⟨sub, entered, active⟩
      rcases stamped.entry id with ⟨absent, -⟩ | ⟨_, next, again, there, waxes⟩
      · exact nomatch entered.symm.trans absent
      · obtain rfl := Option.some.inj (entered.symm.trans again)
        exact ⟨next, there, waxes.active ▸ active⟩
  refine ⟨⟨sound.numbered.stamped stamped, ?_, ?_, ?_⟩, ?_, ?_, fun id => current, ?_⟩
  · rw [stamped.streamOpen]
    exact sound.opened
  · exact fun id here => live.mpr ((current here).elim (sound.current id) (·.1))
  · exact fun id reset => absurd reset ExtTreeSet.not_mem_empty
  · exact fun id here => .inl (live.mp here)
  · rintro id ⟨-, change, here, -⟩
    exact nomatch here.symm.trans ExtTreeMap.getElem?_empty
  · refine ⟨stamped.nextId, fun id absent _ => ?_⟩
    rcases stamped.entry id with ⟨-, gone⟩ | ⟨_, _, impossible, -, -⟩
    · exact gone
    · exact nomatch absent.symm.trans impossible

/-- What is current after a snapshot was so before and is not reset, or the snapshot says that it is
    complete. -/
theorem current_flush (sound : s.Sound) (opened : s.state = .opened) {version : Version}
    {id : TargetId} (current : (s.flush version).2.Current id) :
    s.Current id ∧ id ∉ (s.flush version).1.resets ∨
      (∃ change, (s.flush version).1.changes[id]? = some change ∧ change.current = true) ∧
        (s.flush version).2.subscriptions.isActive id = true := by
  obtain ⟨after, gains⟩ := gains_flush sound opened version
  rcases gains.current id current with before | ⟨⟨-, active⟩, change, here, complete⟩
  · refine .inl ⟨before, fun reset => sound.resets id ?_ before⟩
    have reset : id ∈ s.collected.resets.filter s.subscriptions.isActive := reset
    exact ExtTreeSet.mem_of_mem_filter reset
  · refine .inr ⟨⟨change, ?_, complete⟩, (after.current id current).2⟩
    change (s.collected.changes.filter fun id _ => s.subscriptions.isActive id)[id]? = some change
    rw [ExtTreeMap.getElem?_filter', here]
    simp [Option.filter, active]

/-- A snapshot silences nobody, and what it does not mention is as current as before. -/
theorem heard_flush (sound : s.Sound) (version : Version) :
    (∀ id, s.Heard id → (s.flush version).2.Heard id) ∧
      ∀ id, id ∉ (s.flush version).1.changes →
        (s.flush version).2.subscriptions.isCurrent id = s.subscriptions.isCurrent id := by
  have stamped := stamped_flush sound version
  constructor
  · rintro id ⟨sub, entered, heard⟩
    rcases stamped.entry id with ⟨absent, -⟩ | ⟨_, next, again, there, waxes⟩
    · exact nomatch entered.symm.trans absent
    · obtain rfl := Option.some.inj (entered.symm.trans again)
      exact ⟨next, there, waxes.listening.trans heard⟩
  · intro id unmentioned
    rw [Subscriptions.isCurrent, Subscriptions.isCurrent, stamped.others id]
    rintro ⟨change, here, -⟩
    exact unmentioned (ExtTreeMap.mem_iff_isSome_getElem?.mpr (here ▸ rfl))

end Reports

/-- A removal with a cause breaks after it released a target that somebody listens to. -/
def Strands (s : WatchStream) (change : WatchChange) (id : TargetId) : Prop :=
  s.Heard id ∧ ∃ front ids status, change = .targetRemoved ids (some status) ∧
    s.Breaks front ids ∧ id ∈ front

/-- A target that was current is removed without a cause. -/
def Dulls (s : WatchStream) (change : WatchChange) (id : TargetId) : Prop :=
  s.Current id ∧ ∃ ids, change = .targetRemoved ids none ∧ id ∈ ids

section Receive

variable {s : WatchStream}

theorem receive_removed (opened : s.state = .opened) (ids : List TargetId)
    (cause : Option Status) :
    s.receive (.targetRemoved ids cause) = ((targetsRemoved cause ids s).1,
      (targetsRemoved cause ids s).2.map fun rejections =>
        if rejections.isEmpty then .collected else .rejected rejections) := by
  rw [receive, if_neg (not_not_intro opened)]

/-- What a report can do for a target: an addition makes it live, word that it is complete marks it,
    and a snapshot makes it current if it was marked. -/
theorem gains_receive (sound : s.Sound) (change : WatchChange) :
    (s.receive change).1.Sound ∧
      s.Gains change.Adds change.Completes (fun id => change.Closes ∧ s.Marked id)
        (s.receive change).1 := by
  have fades {after : WatchStream} (done : after.Sound ∧ s.Fades after) :
      after.Sound ∧
        s.Gains change.Adds change.Completes (fun id => change.Closes ∧ s.Marked id) after :=
    ⟨done.1, done.2.widen (fun _ => False.elim) (fun _ => False.elim) fun _ => False.elim⟩
  unfold receive
  split
  case isTrue => exact fades ⟨sound, .refl s⟩
  case isFalse opened =>
    have opened : s.state = .opened := Decidable.not_not.mp opened
    cases change <;> dsimp only
    case targetAdded ids =>
      obtain ⟨sound, gains, -⟩ := gains_targetsAdded ids sound
      exact ⟨sound, gains.widen (fun _ named => ⟨ids, rfl, named⟩) (fun _ => False.elim)
        fun _ => False.elim⟩
    case targetRemoved ids cause => exact fades (fades_targetsRemoved cause ids sound)
    case documentChanged d updated removed =>
      have grows := s.grows_collectDocument d updated removed
      refine fades ⟨sound.collect fun id reset => ?_,
        gains_collect fun id change here complete => ?_⟩
      · exact sound.resets id (grows.resets ▸ reset)
      · exact .inl (grows.completes id change here complete)
    case current id token =>
      split
      case isTrue => exact fades ⟨sound, .refl s⟩
      case isFalse =>
        split
        case isFalse => exact fades ⟨sound, .refl s⟩
        case isTrue =>
          have gains : s.Gains (fun _ => False) (· = id) (fun _ => False)
              { s with collected := s.collected.markCurrent id (some token) } := by
            refine gains_collect fun other change here complete => ?_
            by_cases same : id = other
            · exact .inr same.symm
            · rw [RemoteEvent.markCurrent, RemoteEvent.changes_edit, if_neg same] at here
              exact .inl ⟨change, here, complete⟩
          exact ⟨sound.collect sound.resets, gains.widen (fun _ => False.elim)
            (fun _ same => ⟨token, same ▸ rfl⟩) fun _ => False.elim⟩
    case snapshot version =>
      obtain ⟨sound, gains⟩ := gains_flush sound opened version
      exact ⟨sound, gains.widen (fun _ => False.elim) (fun _ => False.elim)
        fun _ marked => ⟨⟨version, rfl⟩, marked⟩⟩

theorem receive_snapshot (opened : s.state = .opened) (version : Version) :
    s.receive (.snapshot version) = ((s.flush version).2, .ok (.snapshot (s.flush version).1)) := by
  rw [receive, if_neg (not_not_intro opened)]

/-- Whatever is no removal and no snapshot leaves listeners and current targets as they are. -/
theorem calm_receive (sound : s.Sound) (opened : s.state = .opened) {change : WatchChange}
    (stays : ∀ ids cause, change ≠ .targetRemoved ids cause) (goes_on : ¬change.Closes) :
    s.Calm (s.receive change).1 ∧ ∀ outcome, (s.receive change).2 = .ok outcome →
      outcome = .collected := by
  unfold receive
  rw [if_neg (not_not_intro opened)]
  cases change <;> dsimp only
  case targetAdded ids =>
    refine ⟨(gains_targetsAdded ids sound).2.2, fun outcome accepted => ?_⟩
    cases done : (targetsAdded ids s).2 <;> rw [done] at accepted <;> cases accepted
    rfl
  case targetRemoved ids cause => exact absurd rfl (stays ids cause)
  case documentChanged =>
    exact ⟨⟨fun _ heard => heard, fun _ => rfl⟩, fun _ accepted => (Except.ok.inj accepted).symm⟩
  case current target token =>
    split
    case isTrue => exact ⟨.refl s, nofun⟩
    case isFalse =>
      split <;> exact ⟨⟨fun _ heard => heard, fun _ => rfl⟩,
        fun _ accepted => (Except.ok.inj accepted).symm⟩
  case snapshot version => exact absurd ⟨version, rfl⟩ goes_on

/-- What a removal comes to: without a cause nobody is rejected, and the others stay as they are;
    with one, either all the targets are released and those rejected that somebody listens to, or
    it breaks. -/
theorem removal_cases (sound : s.Sound) (opened : s.state = .opened) (ids : List TargetId)
    (cause : Option Status) :
    (cause = none ∧ (∀ id, s.Heard id → (s.receive (.targetRemoved ids cause)).1.Heard id) ∧
        (∀ outcome, (s.receive (.targetRemoved ids cause)).2 = .ok outcome →
          outcome = .collected) ∧
        ∀ id ∉ ids, (s.receive (.targetRemoved ids cause)).1.subscriptions.table[id]? =
          s.subscriptions.table[id]?) ∨
      (∃ status rejections, cause = some status ∧
        (s.receive (.targetRemoved ids cause)).2 =
          .ok (if rejections.isEmpty then .collected else .rejected rejections) ∧
        (∀ r : Rejection, r ∈ rejections ↔
          r.status = status ∧ r.target ∈ ids ∧ s.Heard r.target) ∧
        ∀ id, (s.receive (.targetRemoved ids cause)).1.subscriptions.table[id]? =
          if id ∈ ids then none else s.subscriptions.table[id]?) ∨
      ∃ status front fault, cause = some status ∧ s.Breaks front ids ∧
        (s.receive (.targetRemoved ids cause)).2 = .error fault ∧
        ∀ id, (s.receive (.targetRemoved ids cause)).1.subscriptions.table[id]? =
          if id ∈ front then none else s.subscriptions.table[id]? := by
  rw [receive_removed opened]
  cases cause with
  | none =>
    obtain ⟨plain, heard, others⟩ := targetsRemoved_uncaused ids sound
    refine .inl ⟨rfl, heard, fun outcome accepted => ?_, others⟩
    cases done : (targetsRemoved none ids s).2 with
    | error fault =>
      rw [done] at accepted
      cases accepted
    | ok rejections =>
      rw [done, plain rejections done] at accepted
      exact (Except.ok.inj accepted).symm
  | some status =>
    rcases s.fits_or_breaks ids with fits | ⟨front, breaks⟩
    · obtain ⟨rejections, done, members, table⟩ := targetsRemoved_fitting status fits
      exact .inr (.inl ⟨status, rejections, rfl, by rw [done]; rfl, members, table⟩)
    · obtain ⟨⟨fault, done⟩, table⟩ := targetsRemoved_breaking status breaks
      exact .inr (.inr ⟨status, front, fault, rfl, breaks, by rw [done]; rfl, table⟩)

/-- A report is a removal, or a snapshot, or changes neither who is listened to nor what is
    current. -/
theorem receive_cases (sound : s.Sound) (opened : s.state = .opened) (change : WatchChange) :
    (∃ ids cause, change = .targetRemoved ids cause) ∨ (∃ version, change = .snapshot version) ∨
      s.Calm (s.receive change).1 ∧ ∀ outcome, (s.receive change).2 = .ok outcome →
        outcome = .collected := by
  cases change with
  | targetRemoved ids cause => exact .inl ⟨ids, cause, rfl⟩
  | snapshot version => exact .inr (.inl ⟨version, rfl⟩)
  | targetAdded ids => exact .inr (.inr (calm_receive sound opened nofun nofun))
  | documentChanged d updated removed => exact .inr (.inr (calm_receive sound opened nofun nofun))
  | current target token => exact .inr (.inr (calm_receive sound opened nofun nofun))

/-- Only a report that closes what was reported comes to a snapshot. -/
theorem closes_of_snapshot (sound : s.Sound) (opened : s.state = .opened) {change : WatchChange}
    {event : RemoteEvent} (done : (s.receive change).2 = .ok (.snapshot event)) :
    change.Closes := by
  rcases receive_cases sound opened change with ⟨ids, cause, rfl⟩ | closes | ⟨-, plain⟩
  · rcases removal_cases sound opened ids cause with
      ⟨-, -, plain, -⟩ | ⟨_, _, -, accepted, -⟩ | ⟨_, _, _, -, -, broken, -⟩
    · cases plain _ done
    · have same := Except.ok.inj (accepted.symm.trans done)
      split at same <;> cases same
    · cases broken.symm.trans done
  · exact closes
  · cases plain _ done

/-- Whoever is listened to stays so under a report, unless it is rejected or stranded. -/
theorem heard_receive (sound : s.Sound) (opened : s.state = .opened) (change : WatchChange)
    {id : TargetId} (heard : s.Heard id) :
    (s.receive change).1.Heard id ∨
      (∃ rejections status, (s.receive change).2 = .ok (.rejected rejections) ∧
        ⟨id, status⟩ ∈ rejections) ∨ s.Strands change id := by
  rcases receive_cases sound opened change with ⟨ids, cause, rfl⟩ | ⟨version, rfl⟩ | ⟨calm, -⟩
  · obtain ⟨sub, entered, listening⟩ := heard
    rcases removal_cases sound opened ids cause with ⟨-, kept, -, -⟩ |
      ⟨status, rejections, rfl, done, members, table⟩ |
      ⟨status, front, fault, rfl, breaks, -, table⟩
    · exact .inl (kept id ⟨sub, entered, listening⟩)
    · by_cases named : id ∈ ids
      · have rejected : ⟨id, status⟩ ∈ rejections :=
          (members _).mpr ⟨rfl, named, sub, entered, listening⟩
        have someone : rejections.isEmpty = false := by
          simpa using List.ne_nil_of_mem rejected
        exact .inr (.inl ⟨rejections, status, by simp [done, someone], rejected⟩)
      · exact .inl ⟨sub, by rw [table, if_neg named, entered], listening⟩
    · by_cases named : id ∈ front
      · exact .inr (.inr ⟨⟨sub, entered, listening⟩, front, ids, status, rfl, breaks, named⟩)
      · exact .inl ⟨sub, by rw [table, if_neg named, entered], listening⟩
  · rw [receive_snapshot opened]
    exact .inl ((heard_flush sound version).1 id heard)
  · exact .inl (calm.heard id heard)

/-- A target that a removal strands is gone, and the report is a fault. -/
theorem strands_receive (opened : s.state = .opened) {change : WatchChange}
    {id : TargetId} (strands : s.Strands change id) :
    (∃ fault, (s.receive change).2 = .error fault) ∧
      (s.receive change).1.subscriptions.table[id]? = none := by
  obtain ⟨-, front, ids, status, rfl, breaks, named⟩ := strands
  obtain ⟨⟨fault, done⟩, table⟩ := targetsRemoved_breaking status breaks
  rw [receive_removed opened, done]
  exact ⟨⟨fault, rfl⟩, by rw [table, if_pos named]⟩

/-- An accepted report strands nobody. -/
theorem heard_accepted (sound : s.Sound) (opened : s.state = .opened) {change : WatchChange}
    {outcome : WatchOutcome} (accepted : (s.receive change).2 = .ok outcome) {id : TargetId}
    (heard : s.Heard id) :
    (s.receive change).1.Heard id ∨
      ∃ rejections status, outcome = .rejected rejections ∧ ⟨id, status⟩ ∈ rejections := by
  rcases heard_receive sound opened change heard with
    kept | ⟨rejections, status, done, rejected⟩ | strands
  · exact .inl kept
  · exact .inr ⟨rejections, status, Except.ok.inj (accepted.symm.trans done), rejected⟩
  · obtain ⟨⟨fault, broken⟩, -⟩ := strands_receive opened strands
    cases accepted.symm.trans broken

/-- Whom a report rejects was listened to and is gone. -/
theorem rejected_receive (sound : s.Sound) (opened : s.state = .opened) {change : WatchChange}
    {rejections : List Rejection} (done : (s.receive change).2 = .ok (.rejected rejections))
    {r : Rejection} (rejected : r ∈ rejections) :
    s.Heard r.target ∧ (s.receive change).1.subscriptions.table[r.target]? = none := by
  rcases receive_cases sound opened change with ⟨ids, cause, rfl⟩ | ⟨version, rfl⟩ | ⟨-, plain⟩
  · rcases removal_cases sound opened ids cause with ⟨-, -, plain, -⟩ |
      ⟨status, all, rfl, accepted, members, table⟩ | ⟨status, front, fault, rfl, -, broken, -⟩
    · cases plain _ done
    · have same := Except.ok.inj (accepted.symm.trans done)
      split at same
      case isTrue => cases same
      case isFalse =>
        obtain rfl := WatchOutcome.rejected.inj same
        obtain ⟨-, named, heard⟩ := (members r).mp rejected
        exact ⟨heard, by rw [table, if_pos named]⟩
    · cases broken.symm.trans done
  · rw [receive_snapshot opened] at done
    cases done
  · cases plain _ done

/-- Under an accepted report the same targets stay current, but for those that are dulled, rejected
    or mentioned by a snapshot. -/
theorem current_receive (sound : s.Sound) (opened : s.state = .opened) {change : WatchChange}
    {outcome : WatchOutcome} (accepted : (s.receive change).2 = .ok outcome) (id : TargetId) :
    (s.receive change).1.subscriptions.isCurrent id = s.subscriptions.isCurrent id ∨
      s.Dulls change id ∨
      (∃ rejections status, outcome = .rejected rejections ∧ ⟨id, status⟩ ∈ rejections) ∨
      ∃ event, outcome = .snapshot event ∧ id ∈ event.changes := by
  rcases receive_cases sound opened change with ⟨ids, cause, rfl⟩ | ⟨version, rfl⟩ | ⟨calm, -⟩
  · by_cases current : s.Current id
    case neg =>
      left
      obtain ⟨-, gains⟩ := gains_receive sound (.targetRemoved ids cause)
      have still : ¬(s.receive (.targetRemoved ids cause)).1.Current id := by
        intro after
        rcases gains.current id after with before | ⟨⟨_, impossible⟩, -⟩
        · exact current before
        · cases impossible
      exact (Bool.eq_false_iff.mpr still).trans (Bool.eq_false_iff.mpr current).symm
    case pos =>
      rcases removal_cases sound opened ids cause with ⟨rfl, -, -, others⟩ |
        ⟨status, rejections, rfl, done, members, table⟩ | ⟨status, front, fault, rfl, -, broken, -⟩
      · by_cases named : id ∈ ids
        · exact .inr (.inl ⟨current, ids, rfl, named⟩)
        · rw [Subscriptions.isCurrent, others id named]
          exact .inl rfl
      · by_cases named : id ∈ ids
        · have rejected : ⟨id, status⟩ ∈ rejections :=
            (members _).mpr ⟨rfl, named, sound.heard current⟩
          have someone : rejections.isEmpty = false := by
            simpa using List.ne_nil_of_mem rejected
          rw [done, someone] at accepted
          exact .inr (.inr (.inl ⟨rejections, status, (Except.ok.inj accepted).symm, rejected⟩))
        · rw [Subscriptions.isCurrent, table, if_neg named]
          exact .inl rfl
      · cases broken.symm.trans accepted
  · rw [receive_snapshot opened] at accepted ⊢
    obtain rfl := Except.ok.inj accepted
    by_cases mentioned : id ∈ (s.flush version).1.changes
    · exact .inr (.inr (.inr ⟨_, rfl, mentioned⟩))
    · exact .inl ((heard_flush sound version).2 id mentioned)
  · exact .inl (calm.current id)

end Receive

end WatchStream

end LiveQuery
