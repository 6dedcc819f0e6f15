import LiveQuery.Proofs.RepeatedEvents
import Mathlib.Data.List.Forall2
import Mathlib.Data.List.Nodup

/-!
# Between snapshots

Reports of the server are collected and show in nothing before the snapshot that
closes them. Whatever else happens on the stream, views may be dropped but keep
their replicas, and a listener that is told something is sent its last event or
sees the documents again that it has seen, under other flags.

The last part rests on a law of all runs: whoever listens to an initialized view
was shown its present result. The law is up to the equality of documents, and so
is what a listener sees again. The order of a target may tell documents apart that
are equal, since it tells the two zeros apart; where it does, the documents may
change their places.
-/

namespace LiveQuery

open Std

/-- The documents of one list stand, up to equality, in the same places of the other. -/
abbrev Document.Match : List Document → List Document → Prop :=
  List.Forall₂ fun a b => a.same b = true

/-- A snapshot shows the documents of an earlier one again and reports no change. The order is that
    of the earlier one, too, unless the target orders documents apart that are the same. -/
structure ViewSnapshot.Repeats (last next : ViewSnapshot) : Prop where
  target : next.target = last.target
  changes : next.changes = []
  documents : ∃ matched, Document.Match last.documents matched ∧ matched.Perm next.documents
  ordered : (∀ a ∈ last.documents, ∀ b ∈ next.documents, a.same b = true →
    next.target.compare a b = .eq) → Document.Match last.documents next.documents

namespace Target

/-- What compares like two documents that are in order is in order itself. -/
theorem lt_of_tied {t : Target} {a b c d : Document} (left : t.compare a c = .eq)
    (right : t.compare b d = .eq) (less : t.compare a b = .lt) : t.compare c d = .lt := by
  have swapped : t.compare c a = .eq := by rw [← t.compare_swap a c, left, Ordering.swap_eq]
  have first : t.compare c b = .lt := ((t.chains_compare c a b).same_left swapped).trans less
  exact ((t.chains_compare c b d).same_right right).trans first

theorem mem_sorted (t : Target) {documents : Documents} (keyed : documents.Keyed) {d : Document} :
    d ∈ t.sorted documents ↔ documents[d.key]? = some d :=
  (perm_sortBy t.before documents.list).mem_iff.trans (Documents.mem_list keyed)

theorem nodup_sorted (t : Target) {documents : Documents} (keyed : documents.Keyed) :
    ((t.sorted documents).map (·.key)).Nodup :=
  ((perm_sortBy t.before documents.list).map _).nodup_iff.mpr keyed.nodup_list

end Target

namespace Documents

/-- What a set holds under the key of a document. -/
def counterpart (documents : Documents) (d : Document) : Document := documents[d.key]?.getD d

section Counterparts

variable {before after : Documents}

/-- Where two sets agree, a document of the one has a counterpart in the other. -/
theorem same_counterpart (agrees : before.Agrees after) {d : Document}
    (here : before[d.key]? = some d) :
    after[d.key]? = some (after.counterpart d) ∧ d.same (after.counterpart d) = true := by
  have rel := agrees d.key
  rw [here] at rel
  unfold counterpart
  cases found : after[d.key]? with
  | none =>
    rw [found] at rel
    cases rel
  | some other =>
    rw [found] at rel
    cases rel with
    | some same => exact ⟨rfl, same⟩

/-- The counterparts of the one set's documents are the other set's documents. -/
theorem perm_counterpart (t : Target) (keyed : before.Keyed) (keyed' : after.Keyed)
    (agrees : before.Agrees after) :
    ((t.sorted before).map after.counterpart).Perm (t.sorted after) := by
  have pair : ∀ a ∈ t.sorted before, after[a.key]? = some (after.counterpart a) :=
    fun a member => (same_counterpart agrees ((t.mem_sorted keyed).mp member)).1
  have keys : ((t.sorted before).map after.counterpart).map (·.key) =
      (t.sorted before).map (·.key) := by
    rw [List.map_map]
    exact List.map_congr_left fun a member => keyed' a.key _ (pair a member)
  have nodup : ((t.sorted before).map after.counterpart).Nodup :=
    List.Nodup.of_map _ (keys ▸ t.nodup_sorted keyed)
  refine (List.perm_ext_iff_of_nodup nodup (List.Nodup.of_map _ (t.nodup_sorted keyed'))).mpr ?_
  intro b
  rw [List.mem_map, t.mem_sorted keyed']
  constructor
  · rintro ⟨a, member, rfl⟩
    rw [keyed' a.key _ (pair a member)]
    exact pair a member
  · intro found
    have rel := agrees b.key
    rw [found] at rel
    cases there : before[b.key]? with
    | none =>
      rw [there] at rel
      cases rel
    | some a =>
      have key := keyed b.key a there
      have member : a ∈ t.sorted before := (t.mem_sorted keyed).mpr (key ▸ there)
      have same := pair a member
      rw [key, found] at same
      exact ⟨a, member, (Option.some.inj same).symm⟩

end Counterparts

end Documents

namespace Target

section Counterparts

variable {before after : Documents}

/-- In the place of each document stands the state that the other set has of it. -/
theorem match_counterpart (t : Target) (keyed : before.Keyed) (agrees : before.Agrees after) :
    Document.Match (t.sorted before) ((t.sorted before).map after.counterpart) :=
  List.forall₂_map_right_iff.mpr <| List.forall₂_same.mpr fun _ member =>
    (Documents.same_counterpart agrees ((t.mem_sorted keyed).mp member)).2

/-- If the states that the other set has are in order, they are the other set in order: both lists
    are strictly sorted and hold the same documents. -/
theorem map_counterpart (t : Target) (keyed : before.Keyed) (keyed' : after.Keyed)
    (agrees : before.Agrees after)
    (strict : (t.sorted before).Pairwise fun a b =>
      t.compare (after.counterpart a) (after.counterpart b) = .lt) :
    (t.sorted before).map after.counterpart = t.sorted after := by
  refine List.Perm.eq_of_pairwise (fun a b _ _ less more => ?_) (List.pairwise_map.mpr strict)
    (t.sorted_strict keyed') (Documents.perm_counterpart t keyed keyed' agrees)
  rw [← t.compare_swap a b, less] at more
  cases more

/-- Two results that agree hold the same documents in the same order exactly if the order of the one
    is in order for the states of the other. -/
theorem match_sorted_iff (t : Target) (keyed : before.Keyed) (keyed' : after.Keyed)
    (agrees : before.Agrees after) :
    Document.Match (t.sorted before) (t.sorted after) ↔
      (t.sorted before).Pairwise fun a b =>
        t.compare (after.counterpart a) (after.counterpart b) = .lt := by
  constructor
  · intro matched
    -- What is the same has the same key, and the other set has one document under a key.
    have placed : List.Forall₂ (fun a b => after.counterpart a = b)
        (t.sorted before) (t.sorted after) := by
      refine List.forall₂_iff_get.mpr ⟨matched.length_eq, fun i here there => ?_⟩
      have same := matched.get here there
      have found := (t.mem_sorted keyed').mp (List.get_mem (t.sorted after) ⟨i, there⟩)
      rw [Documents.counterpart, Document.key_of_same same, found, Option.getD_some]
    have kept : (t.sorted before).map after.counterpart = t.sorted after := by
      rw [← List.forall₂_eq_eq_eq, List.forall₂_map_left_iff]
      exact placed
    exact List.pairwise_map.mp (kept ▸ t.sorted_strict keyed')
  · intro strict
    rw [← t.map_counterpart keyed keyed' agrees strict]
    exact t.match_counterpart keyed agrees

/-- The order is the same if the target orders no two documents apart that are the same. -/
theorem ordered_of_tied (t : Target) (keyed : before.Keyed) (keyed' : after.Keyed)
    (agrees : before.Agrees after)
    (tied : ∀ a ∈ t.sorted before, ∀ b ∈ t.sorted after, a.same b = true → t.compare a b = .eq) :
    (t.sorted before).Pairwise fun a b =>
      t.compare (after.counterpart a) (after.counterpart b) = .lt := by
  have tie : ∀ a ∈ t.sorted before, t.compare a (after.counterpart a) = .eq := by
    intro a member
    obtain ⟨-, same⟩ := Documents.same_counterpart agrees ((t.mem_sorted keyed).mp member)
    have there := List.mem_map_of_mem (f := after.counterpart) member
    have perm := Documents.perm_counterpart t keyed keyed' agrees
    exact tied a member _ (perm.mem_iff.mp there) same
  exact (t.sorted_strict keyed).imp_of_mem fun here there less =>
    lt_of_tied (tie _ here) (tie _ there) less

end Counterparts

end Target

namespace Engine

/-- Views may be dropped, and those that are left are as they were. -/
def OnlyDrops (e after : Engine) : Prop :=
  ∀ (id : TargetId) w, after.views[id]? = some w → e.views[id]? = some w

section OnlyDrops

variable {e middle after : Engine}

theorem OnlyDrops.of_views (same : after.views = e.views) : e.OnlyDrops after :=
  fun _ _ there => same ▸ there

theorem OnlyDrops.trans (first : e.OnlyDrops middle) (second : middle.OnlyDrops after) :
    e.OnlyDrops after :=
  fun id w there => first id w (second id w there)

theorem OnlyDrops.foldl {α : Type} {step : Engine → α → Engine}
    (each : ∀ (e : Engine) a, e.OnlyDrops (step e a)) (steps : List α) (e : Engine) :
    e.OnlyDrops (steps.foldl step e) := by
  induction steps generalizing e with
  | nil => exact .of_views rfl
  | cons a rest ih => exact (each e a).trans (ih (step e a))

theorem onlyDrops_prune (e : Engine) : e.OnlyDrops e.prune := by
  intro id w there
  rw [Engine.prune, ExtTreeMap.getElem?_filter', Option.filter_eq_some_iff] at there
  exact there.1

theorem onlyDrops_rejectTargets (e : Engine) (rejections : List Rejection) :
    e.OnlyDrops (e.rejectTargets rejections) := by
  refine .foldl (fun e r id w there => ?_) rejections e
  rw [views_rejectTarget, ExtTreeMap.getElem?_erase] at there
  split at there
  case isTrue => cases there
  case isFalse => exact there

theorem onlyDrops_dispatchAll (e : Engine) : e.OnlyDrops e.dispatchAll :=
  .foldl (fun e id => .of_views (onlyTells_dispatch e id).views) _ e

theorem onlyDrops_resync (e : Engine) : e.OnlyDrops e.resync :=
  have told : e.OnlyDrops e.startedOver.dispatchAll := onlyDrops_dispatchAll _
  told.trans (onlyDrops_prune _)

end OnlyDrops

end Engine

/-- Only what concerns active targets is handed out. -/
theorem WatchStream.isActive_of_flush {s : WatchStream} {version : Version} {id : TargetId}
    (concerned : id ∈ (s.flush version).1.affected) : s.subscriptions.isActive id = true := by
  rcases RemoteEvent.mem_affected.mp concerned with changed | reset
  · have changed : id ∈ s.collected.changes.filter fun id _ => s.subscriptions.isActive id := changed
    rw [ExtTreeMap.mem_iff_isSome_getElem?, ExtTreeMap.getElem?_filter',
      Option.isSome_iff_exists] at changed
    obtain ⟨change, kept⟩ := changed
    exact (Option.filter_eq_some_iff.mp kept).2
  · have reset : id ∈ s.collected.resets.filter s.subscriptions.isActive := reset
    simpa using (ExtTreeSet.mem_filter.mp reset).choose_spec

/-- Whether an event may change what is held of documents: a snapshot, or a decision on a batch. -/
def StreamEvent.takesEffect : StreamEvent → Bool
  | .watch (.snapshot _) | .writeAcked .. | .writeRejected .. => true
  | _ => false

namespace Engine

variable {e : Engine} {event : StreamEvent} {now : Duration}

/-- A report that is no snapshot is collected, or ends targets, or starts the stream over. -/
theorem onlyDrops_receive (sound : e.stream.Sound) {change : WatchChange}
    (between : ¬change.Closes) : e.OnlyDrops (e.receive change) := by
  by_cases opened : e.stream.state = .opened
  case neg =>
    rw [receive, if_pos opened]
    exact .of_views rfl
  case pos =>
    rw [receive_eq opened]
    refine OnlyDrops.trans ?_ (onlyDrops_prune _)
    split
    case h_1 => exact .of_views rfl
    case h_2 event done => exact absurd (WatchStream.closes_of_snapshot sound opened done) between
    case h_3 rejections _ =>
      exact onlyDrops_rejectTargets { e with stream := (e.stream.receive change).1 } rejections
    case h_4 => exact onlyDrops_resync { e with stream := (e.stream.receive change).1 }

/-- An event that takes no effect leaves the replicas of every view that is left as they were. -/
theorem onlyDrops_handle (sound : e.stream.Sound) (between : event.takesEffect = false)
    (now : Duration) : e.OnlyDrops (e.perform (.handle event now)).2 := by
  cases event with
  | opened => exact .of_views rfl
  | watch change =>
    refine onlyDrops_receive sound fun closes => ?_
    obtain ⟨version, rfl⟩ := closes
    cases between
  | writeAcked batch commit => cases between
  | writeRejected batch status => cases between
  | closed error =>
    have ended : e.OnlyDrops
        ((e.cutOff error now).rejectTargets (e.stream.closed error now).1) :=
      onlyDrops_rejectTargets (e.cutOff error now) _
    exact (ended.trans (onlyDrops_dispatchAll _)).trans (onlyDrops_prune _)

/-- A snapshot for a listener that is up to date repeats what it was shown last. -/
theorem repeats_of_upToDate {l : Listener} {v : View} {flags : Flags}
    {snapshots : List ViewSnapshot} {next : ViewSnapshot} (heard : l.Heard v.target snapshots)
    (current : l.UpToDate v) (spoken : l.next? v flags = some next) :
    ∃ last, snapshots.getLast? = some last ∧ last.Repeats next := by
  obtain ⟨r, before, seen, agrees⟩ := current (initialized_of_next? spoken)
  obtain ⟨shows, changes, -⟩ := Listener.of_next?_eq_some spoken
  rw [Listener.Heard, seen] at heard
  obtain ⟨last, latest, showed⟩ := heard
  have known : (r.result v.target).Keyed := r.keyed_result v.target
  have keyed : v.result.Keyed := v.replicas.shown.keyed_result v.target
  refine ⟨last, latest, shows.target.trans showed.target.symm, ?_, ?_, fun tied => ?_⟩
  · rw [changes, Listener.baseline, seen, Option.elim_some]
    exact v.target.changes_eq_nil_of_agrees agrees
  · rw [showed.documents, shows.documents]
    exact ⟨_, v.target.match_counterpart known agrees,
      Documents.perm_counterpart v.target known keyed agrees⟩
  · rw [showed.documents, shows.documents, shows.target] at tied
    rw [showed.documents, shows.documents, v.target.match_sorted_iff known keyed agrees]
    exact v.target.ordered_of_tied known keyed agrees tied

/-- What an event that takes no effect sends to a listener. -/
theorem sent_between {behind : TargetId → Prop} (informed : Informed behind e)
    (ahead : ∀ t, ¬behind t) (sound : e.stream.Sound) (between : event.takesEffect = false)
    (now : Duration) (x : ListenerId) :
    e.sent (.handle event now) x = [] ∨
      (∃ fault, e.sent (.handle event now) x = [.error fault] ∧
        (e.perform (.handle event now)).2.listeners[x]? = none) ∨
      ∃ last next, e.sent (.handle event now) x = [.ok next] ∧
        (e.told x).getLast? = some (.ok last) ∧ last.Repeats next := by
  have told := told_perform informed sound (.handle event now) x
  have news {events : List ListenEvent}
      (line : (e.perform (.handle event now)).2.told x = e.told x ++ events) :
      e.sent (.handle event now) x = events :=
    List.append_cancel_left (told.symm.trans line)
  have unchanged (line : (e.perform (.handle event now)).2.line x = e.line x) :
      e.sent (.handle event now) x = [] :=
    news ((congrArg Line.events line).trans (List.append_nil _).symm)
  cases entered : e.listeners[x]? with
  | none => exact .inl (unchanged ((silent_perform e (.handle event now) nofun).line entered))
  | some l =>
    cases Course.perform informed sound entered (.handle event now) with
    | spoken spoken _ =>
      obtain ⟨w, here, line⟩ := spoken
      obtain ⟨v, viewed, -, ⟨snapshots, -, heldBefore, heard⟩, current⟩ :=
        informed.served x l entered
      obtain rfl := Option.some.inj
        (viewed.symm.trans (onlyDrops_handle sound between now _ w here.viewed))
      have events := news ((congrArg Line.events line).trans (Line.events_inform ..))
      change e.sent _ x = e.listeners[x]?.elim [] _ at events
      rw [entered, Option.elim_some, Listener.news] at events
      by_cases attached : l.attached
      case neg => exact .inl (by rw [events, if_neg attached])
      case pos =>
        rw [if_pos attached] at events
        cases spoken : l.next? v ((e.perform (.handle event now)).2.flagsOf l.target v) with
        | none => exact .inl (by rw [events, spoken]; rfl)
        | some next =>
          obtain ⟨last, latest, repeated⟩ :=
            repeats_of_upToDate (heard attached) (current (ahead _)) spoken
          refine .inr (.inr ⟨last, next, by rw [events, spoken]; rfl, ?_, repeated⟩)
          rw [heldBefore, List.getLast?_map, latest, Option.map_some]
    | still still _ _ => exact .inl (unchanged still.1)
    | ended status line _ _ =>
      have events := news ((congrArg Line.events line).trans (Line.events_finish ..))
      change e.sent _ x = e.listeners[x]?.elim [] _ at events
      rw [entered, Option.elim_some] at events
      by_cases attached : l.attached
      case neg => exact .inl (by rw [events, if_neg attached])
      case pos =>
        rw [if_pos attached] at events
        exact .inr (.inl ⟨_, events, (congrArg Line.entry line).trans (Line.entry_finish ..)⟩)
    | left gone _ => cases gone

/-- A snapshot is taken into the server's replicas of targets that are live, and leaves the others
    alone. -/
theorem server_snapshot {version : Version} {id : TargetId} {v w : View}
    (idle : ¬e.stream.Live id) (before : e.views[id]? = some v)
    (viewed : (e.receive (.snapshot version)).views[id]? = some w) :
    w.replicas.server = v.replicas.server := by
  by_cases opened : e.stream.state = .opened
  case neg =>
    rw [receive, if_pos opened, before] at viewed
    rw [Option.some.inj viewed]
  case pos =>
    have inactive : ¬e.stream.subscriptions.isActive id = true := fun active =>
      idle ⟨opened, active⟩
    rw [receive_eq opened, WatchStream.receive_snapshot opened] at viewed
    have there := onlyDrops_prune _ id w viewed
    dsimp only at there
    split at there
    case h_1 after applied =>
      have spared : id ∉ (e.stream.flush version).1.affected.toList := fun member =>
        inactive (WatchStream.isActive_of_flush (ExtTreeSet.mem_toList.mp member))
      obtain ⟨edition, shown, views⟩ := views_applyRemote applied id
      rw [show ({ e with stream := (e.stream.flush version).2 } : Engine).views[id]? = some v
        from before, Option.map_some, if_neg spared] at views
      rw [Option.some.inj (there.symm.trans views)]
      rfl
    case h_2 =>
      have kept := onlyDrops_resync { e with stream := (e.stream.flush version).2 } id w there
      rw [Option.some.inj (before.symm.trans kept)]

/-- Reports show in nothing before their snapshot. In every engine that comes about, an event of the
    stream that is neither a snapshot nor a decision on a batch leaves every view that is left as it
    was, and sends a listener nothing, or its last event, or a snapshot that repeats the one before.
    And a snapshot edits the server's replicas of live targets alone. -/
theorem reports_wait_for_snapshots {e : Engine} (reached : e.Reachable) :
    (∀ event now, event.takesEffect = false →
      e.OnlyDrops (e.perform (.handle event now)).2 ∧ ∀ x,
        e.sent (.handle event now) x = [] ∨
          (∃ fault, e.sent (.handle event now) x = [.error fault] ∧
            (e.perform (.handle event now)).2.listeners[x]? = none) ∨
          ∃ last next, e.sent (.handle event now) x = [.ok next] ∧
            (e.told x).getLast? = some (.ok last) ∧ last.Repeats next) ∧
      ∀ version now, ∀ id : TargetId, ∀ v w, ¬e.stream.Live id → e.views[id]? = some v →
        (e.perform (.handle (.watch (.snapshot version)) now)).2.views[id]? = some w →
        w.replicas.server = v.replicas.server := by
  obtain ⟨past, history⟩ := reached.history
  refine ⟨fun event now between => ⟨onlyDrops_handle history.sound between now, fun x => ?_⟩, ?_⟩
  · exact sent_between reached.settled.informed (fun _ late => late) history.sound between now x
  · exact fun version now id v w idle before viewed => server_snapshot idle before viewed

end Engine

theorem Binary64.zero_lt_wordLimit : 0 < Binary64.wordLimit := by decide

/-- A document of the collection "c" with a zero in the field "x". -/
def zeroed (name : String) (negative : Bool) : Document where
  key := ⟨"c/" ++ name⟩
  version := ⟨1⟩
  data := some ((∅ : Json.Fields).insert "x"
    ⟨.number (.float ⟨negative, 0, Binary64.zero_lt_wordLimit⟩), rfl⟩)

/-- How many changes a snapshot reports, and the keys of its documents. -/
def ListenEvent.outline : ListenEvent → Option (Nat × List DocumentKey)
  | .ok s => some (s.changes.length, s.documents.map (·.key))
  | .error _ => none

theorem ListenEvent.of_outline {event : ListenEvent} {count : Nat} {keys : List DocumentKey}
    (outlined : outline event = some (count, keys)) :
    ∃ s, event = .ok s ∧ s.changes.length = count ∧ s.documents.map (·.key) = keys := by
  cases event with
  | error => cases outlined
  | ok s => exact ⟨s, rfl, Prod.mk.inj (Option.some.inj outlined)⟩

namespace Engine

/-- A collection is listened to in the order of "x", and two documents are reported equal in it. -/
def tied : List Action :=
  [.listen (.query ((Query.ofPath "c").orderedBy "x")), .connect, .handle .opened .zero,
    .handle (.watch (.targetAdded [⟨1⟩])) .zero,
    .handle (.watch (.documentChanged (zeroed "a" false) [⟨1⟩] [])) .zero,
    .handle (.watch (.documentChanged (zeroed "b" false) [⟨1⟩] [])) .zero,
    .handle (.watch (.current ⟨1⟩ ⟨[]⟩)) .zero, .handle (.watch (.snapshot ⟨1⟩)) .zero]

/-- When the stream ends, the listener is sent a snapshot that repeats the one before. -/
theorem closing_repeats :
    let e := blank.run tied
    e.Reachable ∧ StreamEvent.takesEffect (.closed none) = false ∧ ∃ last next,
      e.sent (.handle (.closed none) .zero) ⟨1⟩ = [.ok next] ∧
      (e.told ⟨1⟩).getLast? = some (.ok last) ∧ last.Repeats next := by
  intro e
  have reached : e.Reachable := reachable_blank.run tied
  have outlined : (e.sent (.handle (.closed none) .zero) ⟨1⟩).map ListenEvent.outline =
      [some (0, [⟨"c/a"⟩, ⟨"c/b"⟩])] := by decide +kernel
  refine ⟨reached, rfl, ?_⟩
  rcases ((reports_wait_for_snapshots reached).1 (.closed none) .zero rfl).2 ⟨1⟩ with
    silent | ⟨fault, ended, -⟩ | repeated
  · rw [silent] at outlined
    cases outlined
  · rw [ended] at outlined
    cases outlined
  · exact repeated

/-- One of the documents is reported with the other zero, which is no change. The documents change
    their places when the stream ends, although nothing was reported to the listener in between. -/
theorem zeros_change_places :
    let e := blank.run (tied ++ [
      .handle (.watch (.documentChanged (zeroed "b" true) [⟨1⟩] [])) .zero,
      .handle (.watch (.snapshot ⟨2⟩)) .zero])
    e.Reachable ∧ ∃ last next, (e.told ⟨1⟩).getLast? = some (.ok last) ∧
      e.sent (.handle (.closed none) .zero) ⟨1⟩ = [.ok next] ∧ next.changes = [] ∧
      last.documents.map (·.key) = [⟨"c/a"⟩, ⟨"c/b"⟩] ∧
      next.documents.map (·.key) = [⟨"c/b"⟩, ⟨"c/a"⟩] := by
  intro e
  have before : (e.told ⟨1⟩).map ListenEvent.outline = [some (2, [⟨"c/a"⟩, ⟨"c/b"⟩])] := by
    decide +kernel
  have after : (e.sent (.handle (.closed none) .zero) ⟨1⟩).map ListenEvent.outline =
      [some (0, [⟨"c/b"⟩, ⟨"c/a"⟩])] := by decide +kernel
  obtain ⟨told, only, outlined⟩ := List.map_eq_singleton_iff.mp before
  obtain ⟨sent, news, outlined'⟩ := List.map_eq_singleton_iff.mp after
  obtain ⟨last, rfl, -, keys⟩ := ListenEvent.of_outline outlined
  obtain ⟨next, rfl, unchanged, keys'⟩ := ListenEvent.of_outline outlined'
  refine ⟨reachable_blank.run _, last, next, by rw [only]; rfl, news, ?_, keys, keys'⟩
  exact List.length_eq_zero_iff.mp unchanged

end Engine

end LiveQuery
