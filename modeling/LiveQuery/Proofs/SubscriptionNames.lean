import LiveQuery.Proofs.StreamReports

/-!
# Names of subscriptions

A target is looked up by its canonical name. The names that are known are those of
the entries, each with the number of its entry, so no two entries share a name.
Only listening enters a target or takes one up again. Whatever else happens to the
subscriptions, every entry that is there afterwards was there before, for the same
target, and nobody listens to it who did not listen then.
-/

namespace LiveQuery

open Std

namespace Subscriptions

/-- The name of the target that is entered under a number. -/
def nameOf (s : Subscriptions) (id : TargetId) : Option String :=
  s.table[id]?.map (·.target.canonicalId)

/-- A name is known exactly if some entry has it, and it stands for the number of that entry. -/
def Named (s : Subscriptions) : Prop :=
  ∀ (name : String) (id : TargetId), s.byName[name]? = some id ↔ s.nameOf id = some name

theorem nameOf_of_entered {s : Subscriptions} {id : TargetId} {sub : Subscription}
    (entered : s.table[id]? = some sub) : s.nameOf id = some sub.target.canonicalId := by
  rw [nameOf, entered]
  rfl

/-- No two entries share a name. -/
theorem Named.unique {s : Subscriptions} (named : s.Named) {id other : TargetId} {name : String}
    (first : s.nameOf id = some name) (second : s.nameOf other = some name) : id = other :=
  Option.some.inj (((named name id).mpr first).symm.trans ((named name other).mpr second))

/-- The names depend on the targets of the entries alone. -/
theorem Named.congr {s after : Subscriptions} (named : s.Named) (byName : after.byName = s.byName)
    (same : ∀ id, after.nameOf id = s.nameOf id) : after.Named := by
  intro name id
  rw [byName, same]
  exact named name id

/-- A released entry takes its name with it, and no other has that name. -/
theorem Named.release {s : Subscriptions} (named : s.Named) (released : TargetId) :
    (s.release released).Named := by
  intro name id
  have nameOf : (s.release released).nameOf id = if released = id then none else s.nameOf id := by
    rw [Subscriptions.nameOf, table_release]
    split <;> rfl
  rw [nameOf]
  cases entered : s.table[released]? with
  | none =>
    have same : s.release released = s := by simp [Subscriptions.release, entered]
    rw [same, named name id]
    split
    case isTrue gone => simp [← gone, Subscriptions.nameOf, entered]
    case isFalse => rfl
  | some sub =>
    have own : s.nameOf released = some sub.target.canonicalId := nameOf_of_entered entered
    have byName : (s.release released).byName = s.byName.erase sub.target.canonicalId := by
      simp [Subscriptions.release, entered]
    rw [byName, ExtTreeMap.getElem?_erase]
    simp only [LawfulEqOrd.compare_eq_iff_eq]
    by_cases gone : released = id
    · rw [if_pos gone, ← gone]
      refine ⟨fun known => ?_, nofun⟩
      split at known
      case isTrue => cases known
      case isFalse other =>
        exact absurd (Option.some.inj (own.symm.trans ((named name released).mp known))) other
    · rw [if_neg gone, ← named name id]
      split
      case isFalse => rfl
      case isTrue same =>
        refine ⟨nofun, fun known => absurd ?_ gone⟩
        exact named.unique own (same ▸ (named name id).mp known)

/-- Every entry was there before, for the same target, and is listened to only if it was before. -/
structure Thins (s after : Subscriptions) : Prop where
  entry : ∀ (id : TargetId) next, after.table[id]? = some next →
    ∃ sub, s.table[id]? = some sub ∧ next.id = sub.id ∧ next.target = sub.target ∧
      (next.listening = true → sub.listening = true)
  nextId : s.nextId ≤ after.nextId
  named : s.Named → after.Named

section Thins

variable {s middle after : Subscriptions}

theorem Thins.refl (s : Subscriptions) : s.Thins s :=
  ⟨fun _ next entered => ⟨next, entered, rfl, rfl, id⟩, Nat.le_refl _, id⟩

theorem Thins.trans (first : s.Thins middle) (second : middle.Thins after) : s.Thins after where
  entry id next entered := by
    obtain ⟨sub, entered, own, target, heard⟩ := second.entry id next entered
    obtain ⟨old, entered, own', target', heard'⟩ := first.entry id sub entered
    exact ⟨old, entered, own.trans own', target.trans target', heard' ∘ heard⟩
  nextId := Nat.le_trans first.nextId second.nextId
  named := second.named ∘ first.named

theorem Numbered.thinned (numbered : s.Numbered) (thins : s.Thins after) : after.Numbered := by
  intro id next entered
  obtain ⟨sub, entered, own, -⟩ := thins.entry id next entered
  obtain ⟨named, given⟩ := numbered id sub entered
  exact ⟨own.trans named, Nat.lt_of_lt_of_le given thins.nextId⟩

/-- Editing the entries leaves the names alone, if each keeps its target. -/
theorem thins_map {f : Subscription → Subscription}
    (kept : ∀ sub, (f sub).id = sub.id ∧ (f sub).target = sub.target ∧
      (f sub).listening = sub.listening)
    (table : ∀ id : TargetId, after.table[id]? = s.table[id]?.map f)
    (byName : after.byName = s.byName) (nextId : after.nextId = s.nextId) : s.Thins after where
  entry id next entered := by
    obtain ⟨sub, there, rfl⟩ := Option.map_eq_some_iff.mp ((table id).symm.trans entered)
    obtain ⟨own, target, heard⟩ := kept sub
    exact ⟨sub, there, own, target, fun here => heard ▸ here⟩
  nextId := Nat.le_of_eq nextId.symm
  named named := named.congr byName fun id => by
    rw [nameOf, nameOf, table, Option.map_map]
    congr 1
    funext sub
    exact congrArg Target.canonicalId (kept sub).2.1

/-- Nothing here depends on anything but the two tables. -/
theorem thins_of_tables (table : after.table = s.table) (byName : after.byName = s.byName)
    (nextId : after.nextId = s.nextId) : s.Thins after := by
  refine thins_map (f := id) (fun _ => ⟨rfl, rfl, rfl⟩) (fun other => ?_) byName nextId
  rw [table, Option.map_id]
  rfl

/-- An entry is put in the place of one for the same target. -/
theorem thins_put {id : TargetId} {sub next : Subscription} (entered : s.table[id]? = some sub)
    (known : sub.id = id) (own : next.id = sub.id) (target : next.target = sub.target)
    (heard : next.listening = true → sub.listening = true) : s.Thins (s.put next) where
  entry other found there := by
    rw [table_put, own, known] at there
    split at there
    case isTrue here =>
      obtain rfl := Option.some.inj there
      exact ⟨sub, here ▸ entered, own, target, heard⟩
    case isFalse => exact ⟨found, there, rfl, rfl, fun heard => heard⟩
  nextId := Nat.le_refl _
  named named := named.congr rfl fun other => by
    rw [nameOf, nameOf, table_put, own, known]
    split
    case isTrue here => rw [← here, entered, Option.map_some, Option.map_some, target]
    case isFalse => rfl

theorem thins_release (s : Subscriptions) (released : TargetId) : s.Thins (s.release released) where
  entry id next entered := by
    rw [table_release] at entered
    split at entered
    case isTrue => cases entered
    case isFalse => exact ⟨next, entered, rfl, rfl, fun heard => heard⟩
  nextId := Nat.le_of_eq (s.nextId_release released).symm
  named named := named.release released

theorem thins_foldl_release (ids : List TargetId) (s : Subscriptions) :
    s.Thins (ids.foldl release s) := by
  induction ids generalizing s with
  | nil => exact .refl s
  | cons id rest ih => exact (s.thins_release id).trans (ih (s.release id))

theorem thins_streamOpened (s : Subscriptions) : s.Thins s.streamOpened :=
  thins_map (f := Subscription.reopened) (fun _ => ⟨rfl, rfl, rfl⟩) s.table_streamOpened rfl rfl

theorem thins_clearTokens (s : Subscriptions) : s.Thins s.clearTokens :=
  thins_map (f := fun sub => { sub with token := none, version := .start })
    (fun _ => ⟨rfl, rfl, rfl⟩) s.table_clearTokens rfl rfl

/-- Without a stream nobody keeps the entries that are not listened to. -/
theorem thins_streamClosed (s : Subscriptions) : s.Thins s.streamClosed := by
  let shut : Subscriptions := { s with streamOpen := false, outbox := [] }
  let unheard : List TargetId := (s.table.filter fun _ sub => !sub.listening).keys
  have released : shut.Thins (unheard.foldl release shut) := thins_foldl_release unheard shut
  refine (thins_of_tables rfl rfl rfl : s.Thins shut).trans (released.trans ?_)
  exact thins_map (f := Subscription.settled) (fun _ => ⟨rfl, rfl, rfl⟩)
    (fun id => by simp [streamClosed, unheard, shut]) rfl rfl

/-- The end of listening keeps the entry at most. -/
theorem thins_unlisten (numbered : s.Numbered) (id : TargetId) : s.Thins (s.unlisten id) := by
  rcases s.unlisten_cases id with ⟨same, -⟩ | ⟨sub, entered, heard, ⟨-, gone⟩ | ⟨-, kept⟩⟩
  · rw [same]
    exact .refl s
  · rw [gone]
    exact s.thins_release id
  · have put : s.Thins (s.put (left sub)) :=
      thins_put entered (numbered id sub entered).1 rfl rfl fun _ => heard
    rw [kept]
    exact put.trans (thins_of_tables rfl rfl rfl)

/-- A removal without a cause puts the entry back or releases it. -/
theorem thins_dropped {sub : Subscription} (entered : s.table[sub.id]? = some sub) :
    s.Thins (s.dropped sub).2 := by
  have put (next : Subscription) (own : next.id = sub.id) (target : next.target = sub.target)
      (heard : next.listening = sub.listening) : s.Thins (s.put next) :=
    thins_put entered rfl own target fun here => heard ▸ here
  unfold dropped
  dsimp only
  split
  case isTrue =>
    split
    · exact s.thins_release sub.id
    · exact put _ rfl rfl rfl
  case isFalse =>
    split
    · exact .refl s
    · split
      · split
        · let next : Subscription := { sub with current := false, adds := 1 }
          have asked : (s.put next).Thins (s.putAndAdd next) := thins_of_tables rfl rfl rfl
          exact (put next rfl rfl rfl).trans asked
        · exact put _ rfl rfl rfl
      · exact s.thins_release sub.id

theorem thins_removed {id : TargetId} {cause : Option Status} {outcome : RemoveOutcome}
    (numbered : s.Numbered) (done : s.removed id cause = .ok (outcome, after)) :
    s.Thins after := by
  unfold removed at done
  split at done
  case h_1 => cases done
  case h_2 =>
    obtain ⟨-, rfl⟩ := Prod.mk.inj (Except.ok.inj done)
    exact s.thins_release id
  case h_3 sub entered =>
    have own : sub.id = id := (numbered id sub entered).1
    have dropped : s.Thins (s.dropped sub).2 := thins_dropped (own ▸ entered)
    rw [Except.ok.inj done] at dropped
    exact dropped

theorem thins_markCurrent (numbered : s.Numbered) (id : TargetId) (token : Option ResumeToken)
    (version : Version) : s.Thins (s.markCurrent id token version) := by
  unfold markCurrent
  split
  case h_1 => exact .refl s
  case h_2 sub entered =>
    split
    · exact thins_put entered (numbered id sub entered).1 rfl rfl fun heard => heard
    · exact .refl s

/-- Marking what is complete, one target after the other. -/
theorem thins_foldl_markCurrent (numbered : s.Numbered) (version : Version)
    (changes : List (TargetId × TargetChange)) :
    s.Thins (changes.foldl (fun subs (id, change) =>
      if change.current then subs.markCurrent id change.token version else subs) s) := by
  induction changes generalizing s with
  | nil => exact .refl s
  | cons first rest ih =>
    obtain ⟨id, change⟩ := first
    rw [List.foldl_cons]
    have here : s.Thins
        (if change.current then s.markCurrent id change.token version else s) := by
      split
      · exact thins_markCurrent numbered id change.token version
      · exact .refl s
    exact here.trans (ih (numbered.thinned here))

end Thins

/-- Starting a subscription under its own number leaves the names alone if they fit it. -/
theorem named_start {s : Subscriptions} {sub : Subscription}
    (named : ∀ (name : String) (id : TargetId), s.byName[name]? = some id ↔
      (if sub.id = id then some sub.target.canonicalId else s.nameOf id) = some name) :
    (s.start sub).Named := by
  have nameOf (id : TargetId) : (s.start sub).nameOf id =
      if sub.id = id then some sub.target.canonicalId else s.nameOf id := by
    rw [Subscriptions.nameOf, table_start]
    split
    · rw [Option.map_some, target_started]
    · rfl
  intro name id
  rw [byName_start, nameOf]
  exact named name id

/-- Listening enters a target only under a name that is not known yet. -/
theorem named_listen {s : Subscriptions} (numbered : s.Numbered) (named : s.Named) (t : Target) :
    (s.listen t).2.Named := by
  rcases listen_cases numbered t with ⟨id, sub, entered, heard, same⟩ |
      ⟨id, sub, entered, unheard, made⟩ | ⟨absent, made⟩
  · exact same ▸ named
  · rw [made]
    refine named_start fun name other => ?_
    have own : (resumed sub).id = id := (numbered id sub entered).1
    rw [own, named]
    split
    case isTrue here => rw [← here, nameOf_of_entered entered]; rfl
    case isFalse => rfl
  · have unknown : s.byName[t.canonicalId]? = none := by
      cases known : s.byName[t.canonicalId]? with
      | none => rfl
      | some id =>
        obtain ⟨sub, entered, -⟩ := Option.map_eq_some_iff.mp ((named _ id).mp known)
        have found : (s.find? t).bind s.get? = some sub := by
          rw [find?, known]
          exact entered
        cases absent.symm.trans found
    have unused : s.nameOf ⟨s.nextId⟩ = none := by
      rw [nameOf, numbered.unused]
      rfl
    rw [made]
    refine named_start fun name other => ?_
    have others : Subscriptions.nameOf
        { s with byName := s.byName.insert t.canonicalId ⟨s.nextId⟩, nextId := s.nextId + 1 }
        other = s.nameOf other := rfl
    rw [ExtTreeMap.getElem?_insert, others]
    simp only [LawfulEqOrd.compare_eq_iff_eq]
    by_cases here : t.canonicalId = name
    · rw [if_pos here]
      split
      case isTrue new => simp [new, here]
      case isFalse old =>
        refine ⟨fun same => absurd (Option.some.inj same) old, fun known => ?_⟩
        rw [← here, ← named, unknown] at known
        cases known
    · rw [if_neg here, named]
      split
      case isTrue new => simp [← new, unused, here]
      case isFalse => rfl

/-- Listening answers with the number under which the target is found then. -/
theorem find?_listen {s : Subscriptions} (numbered : s.Numbered) (t : Target) :
    (s.listen t).2.find? t = some (s.listen t).1 := by
  unfold listen
  cases known : (s.find? t).bind s.get? with
  | none =>
    dsimp only [subscribe, find?]
    rw [byName_start, ExtTreeMap.getElem?_insert_self]
  | some sub =>
    obtain ⟨id, found, entered⟩ := Option.bind_eq_some_iff.mp known
    have own : sub.id = id := (numbered id sub entered).1
    dsimp only
    split
    · rw [found, own]
    · dsimp only [find?]
      rw [byName_start, own]
      exact found

/-- So its entry is for a target of the same name. -/
theorem nameOf_listen {s : Subscriptions} (numbered : s.Numbered) (named : s.Named) (t : Target) :
    (s.listen t).2.nameOf (s.listen t).1 = some t.canonicalId :=
  (named_listen numbered named t _ _).mp (find?_listen numbered t)

/-- After listening an entry is for the target that it was for before, or it is the new one. The
    entries of all other numbers are as before. -/
theorem entry_listen {s : Subscriptions} (numbered : s.Numbered) (t : Target) {id : TargetId}
    {next : Subscription} (entered : (s.listen t).2.table[id]? = some next) :
    (∃ sub, s.table[id]? = some sub ∧ next.target = sub.target ∧
        (id ≠ (s.listen t).1 → next = sub)) ∨
      id = (s.listen t).1 ∧ id = ⟨s.nextId⟩ ∧ next.target = t := by
  rcases listen_cases numbered t with ⟨_, _, _, _, same⟩ |
      ⟨old, sub, there, unheard, made⟩ | ⟨-, made⟩
  · rw [same] at entered
    exact .inl ⟨next, entered, rfl, fun _ => rfl⟩
  · have own : (resumed sub).id = old := (numbered old sub there).1
    rw [made] at entered ⊢
    rw [table_start, own] at entered
    split at entered
    case isTrue here =>
      refine .inl ⟨sub, here ▸ there, ?_, fun differs => absurd here.symm differs⟩
      rw [← Option.some.inj entered, target_started]
      rfl
    case isFalse => exact .inl ⟨next, entered, rfl, fun _ => rfl⟩
  · rw [made] at entered ⊢
    rw [table_subscribe] at entered
    split at entered
    case isTrue here =>
      refine .inr ⟨here.symm, here.symm, ?_⟩
      rw [← Option.some.inj entered, target_started]
      rfl
    case isFalse => exact .inl ⟨next, entered, rfl, fun _ => rfl⟩

end Subscriptions

namespace WatchStream

variable {s after : WatchStream}

/-- The subscriptions of the later stream are thinned ones of the earlier. -/
def Thins (s after : WatchStream) : Prop := s.subscriptions.Thins after.subscriptions

theorem thins_shut (s : WatchStream) : s.Thins s.shut := s.subscriptions.thins_streamClosed

theorem thins_restart (s : WatchStream) : s.Thins s.restart :=
  s.subscriptions.thins_clearTokens.trans (Subscriptions.thins_streamClosed _)

theorem thins_disconnect (s : WatchStream) : s.Thins s.disconnect := by
  unfold disconnect
  split
  · exact s.thins_shut
  · exact .refl _

theorem thins_opened (s : WatchStream) (now : Duration) : s.Thins (s.opened now) := by
  unfold opened
  split
  · exact .refl _
  · exact s.subscriptions.thins_streamOpened

theorem thins_closed (s : WatchStream) (error : Option StreamError) (now : Duration) :
    s.Thins (s.closed error now).2 := by
  rw [closed_eq]
  exact (Subscriptions.thins_foldl_release _ _).trans (Subscriptions.thins_streamClosed _)

theorem thins_targetsAdded (ids : List TargetId) (sound : s.Sound) :
    s.Thins (targetsAdded ids s).1 := by
  induction ids generalizing s with
  | nil => exact .refl _
  | cons id rest ih =>
    unfold targetsAdded
    cases done : s.targetAdded id with
    | error fault => exact .refl _
    | ok next =>
      obtain ⟨sub, collected, entered, -, rfl, -⟩ := targetAdded_cases done
      have here : s.subscriptions.Thins (s.subscriptions.put { sub with adds := sub.adds - 1 }) :=
        Subscriptions.thins_put entered (sound.numbered id sub entered).1 rfl rfl
          fun heard => heard
      exact here.trans (ih (gains_targetAdded sound done).1)

theorem thins_targetsRemoved (cause : Option Status) (ids : List TargetId) (sound : s.Sound) :
    s.Thins (targetsRemoved cause ids s).1 := by
  induction ids generalizing s with
  | nil => exact .refl _
  | cons id rest ih =>
    unfold targetsRemoved
    cases done : s.targetRemoved cause id with
    | error fault => exact .refl _
    | ok result =>
      obtain ⟨rejections, next⟩ := result
      have here : s.Thins next := by
        unfold targetRemoved at done
        cases answered : s.subscriptions.removed id cause with
        | error fault =>
          rw [answered] at done
          cases done
        | ok answer =>
          rw [answered] at done
          obtain ⟨-, rfl⟩ := Prod.mk.inj (Except.ok.inj done)
          exact Subscriptions.thins_removed sound.numbered answered
      exact here.trans (ih (fades_targetRemoved sound done).1)

theorem thins_flush (sound : s.Sound) (version : Version) : s.Thins (s.flush version).2 :=
  Subscriptions.thins_foldl_markCurrent sound.numbered version _

/-- No report enters a target. -/
theorem thins_receive (sound : s.Sound) (change : WatchChange) : s.Thins (s.receive change).1 := by
  unfold receive
  split
  case isTrue => exact .refl _
  case isFalse =>
    cases change <;> dsimp only
    case targetAdded ids => exact thins_targetsAdded ids sound
    case targetRemoved ids cause => exact thins_targetsRemoved cause ids sound
    case documentChanged => exact .refl _
    case current =>
      split
      · exact .refl _
      · split <;> exact .refl _
    case snapshot version => exact thins_flush sound version

end WatchStream

end LiveQuery
