import LiveQuery.Proofs.ListenerLines
import LiveQuery.Proofs.ResultChanges
import Mathlib.Data.List.Chain

/-!
# What a listener can rely on

A listener that applies the changes of every snapshot to the documents of the
one before always holds the documents of the latest. Nothing is sent without
news, nothing follows a fault, and after every call the listener was shown the
present result of the view, unless the view makes no claim.

The proof follows the entry of each listener. What it was shown last is the
latest snapshot that reached it, so the changes that are computed from the entry
are changes from what the listener holds. The result is compared up to equality
of documents, which does not tell the two zeros apart: a write that turns one
into the other is no news.
-/

namespace LiveQuery

open Std

namespace ViewSnapshot

/-- What a listener holds after a snapshot. -/
def held (s : ViewSnapshot) : Documents := Documents.ofList s.documents

/-- A snapshot follows on one if its changes turn what is held after the one into what is held after
    the other, and if it tells something new. -/
structure Follows (last next : ViewSnapshot) : Prop where
  target : next.target = last.target
  replayed : ∃ held, Change.replayAll? last.held next.changes = some held ∧ held.Agrees next.held
  news : next.changes ≠ [] ∨ next.flags ≠ last.flags

/-- A snapshot shows a result under flags. -/
structure Shows (s : ViewSnapshot) (t : Target) (result : Documents) (flags : Flags) : Prop where
  target : s.target = t
  documents : s.documents = t.sorted result
  flags : s.flags = flags

/-- A listener that was shown a result holds it. -/
theorem Shows.held {s : ViewSnapshot} {t : Target} {result : Documents} {flags : Flags}
    (shows : s.Shows t result flags) (keyed : result.Keyed) : s.held = result := by
  rw [ViewSnapshot.held, shows.documents, t.ofList_sorted keyed]

end ViewSnapshot

/-- Snapshots that one listener can replay: the first adds all its documents, each later one follows
    on the one before, and all are in strict order. -/
structure Replays (snapshots : List ViewSnapshot) : Prop where
  opening : ∀ first ∈ snapshots.head?, first.changes = first.documents.map (⟨.added, ·⟩)
  follows : snapshots.IsChain ViewSnapshot.Follows
  ordered : ∀ s ∈ snapshots, s.documents.Pairwise fun a b => s.target.compare a b = .lt

theorem replays_nil : Replays [] := ⟨nofun, List.isChain_nil, nofun⟩

/-- One more snapshot can be replayed if it opens the stream or follows on the last one. -/
theorem Replays.append {snapshots : List ViewSnapshot} (replays : Replays snapshots)
    {next : ViewSnapshot}
    (opening : snapshots = [] → next.changes = next.documents.map (⟨.added, ·⟩))
    (follows : ∀ last ∈ snapshots.getLast?, last.Follows next)
    (ordered : next.documents.Pairwise fun a b => next.target.compare a b = .lt) :
    Replays (snapshots ++ [next]) where
  opening := by
    cases snapshots with
    | nil =>
      intro first here
      obtain rfl := Option.some.inj here
      exact opening rfl
    | cons => exact replays.opening
  follows := by
    refine List.isChain_append.mpr ⟨replays.follows, List.isChain_singleton _, ?_⟩
    intro last here other there
    obtain rfl := Option.some.inj there
    exact follows last here
  ordered := by
    intro s member
    rcases List.mem_append.mp member with before | here
    · exact replays.ordered s before
    · exact List.mem_singleton.mp here ▸ ordered

/-- Events of which a listener can replay the snapshots, and of which only the last may be a
    fault. -/
def Faithful (events : List ListenEvent) : Prop :=
  ∃ snapshots, ∃ ending : Option Fault, Replays snapshots ∧
    events = snapshots.map .ok ++ ending.toList.map .error

namespace Listener

/-- What the entry of a listener says it was shown last is the latest snapshot. -/
def Heard (l : Listener) (t : Target) (snapshots : List ViewSnapshot) : Prop :=
  match l.seen with
  | none => snapshots = []
  | some (r, flags) => ∃ last, snapshots.getLast? = some last ∧ last.Shows t (r.result t) flags

/-- A snapshot is made from the baseline, and there is news in it. -/
theorem of_next?_eq_some {l : Listener} {v : View} {flags : Flags} {next : ViewSnapshot}
    (spoken : l.next? v flags = some next) :
    next.Shows v.target v.result flags ∧
      next.changes = v.target.changes (l.baseline v.target) v.result ∧
      (next.changes = [] → ∀ r last, l.seen = some (r, last) → flags ≠ last) := by
  unfold next? at spoken
  dsimp only at spoken
  split at spoken
  case isTrue => cases spoken
  case isFalse =>
    split at spoken
    case isTrue => cases spoken
    case isFalse told =>
      obtain rfl := Option.some.inj spoken
      refine ⟨⟨rfl, rfl, rfl⟩, rfl, ?_⟩
      rintro none_changed r last seen rfl
      have none_changed : v.target.changes (l.baseline v.target) v.result = [] := none_changed
      simp [none_changed, seen] at told

/-- Where an initialized view says nothing, the listener has seen the edition or there is no
    change. -/
theorem of_next?_eq_none {l : Listener} {v : View} {flags : Flags}
    (quiet : l.next? v flags = none) (complete : v.replicas.shown.initialized) :
    ∃ r last, l.seen = some (r, last) ∧
      ((r.edition = v.replicas.shown.edition ∧
          r.initialized = v.replicas.shown.initialized) ∨
        v.target.changes (r.result v.target) v.result = []) := by
  unfold next? at quiet
  dsimp only at quiet
  cases seen : l.seen with
  | none => simp [hasSeen, seen, complete] at quiet
  | some shown =>
    obtain ⟨r, last⟩ := shown
    refine ⟨r, last, rfl, ?_⟩
    split at quiet
    case isTrue idle =>
      have had : r.shares v.replicas.shown = true ∧
          (r.initialized == v.replicas.shown.initialized) = true ∧ last = flags := by
        simpa [hasSeen, seen, complete, and_assoc] using idle
      exact .inl ⟨beq_iff_eq.mp had.1, beq_iff_eq.mp had.2.1⟩
    case isFalse =>
      split at quiet
      case isTrue unchanged =>
        have none_changed := (Bool.and_eq_true_iff.mp unchanged).1
        rw [List.isEmpty_iff, baseline, seen, Option.elim_some] at none_changed
        exact .inr none_changed
      case isFalse => cases quiet

/-- The next snapshot can be replayed after those before it, and it is what the entry then says. -/
theorem replays_next {l : Listener} {v : View} {flags : Flags} {snapshots : List ViewSnapshot}
    {next : ViewSnapshot} (replays : Replays snapshots) (heard : l.Heard v.target snapshots)
    (spoken : l.next? v flags = some next) :
    Replays (snapshots ++ [next]) ∧ (l.shown v flags).Heard v.target (snapshots ++ [next]) := by
  obtain ⟨shows, changes, news⟩ := of_next?_eq_some spoken
  have keyed : v.result.Keyed := v.replicas.shown.keyed_result v.target
  refine ⟨replays.append ?_ ?_ ?_, next, List.getLast?_concat, shows⟩
  · rintro rfl
    have unseen : l.baseline v.target = ∅ := by
      unfold Heard at heard
      unfold baseline
      cases seen : l.seen with
      | none => rfl
      | some shown =>
        obtain ⟨_, none_there, _⟩ := seen ▸ heard
        cases none_there
    rw [changes, unseen, Target.changes_from_nothing, shows.documents]
  · intro last here
    unfold Heard at heard
    cases seen : l.seen with
    | none =>
      rw [seen] at heard
      subst heard
      cases here
    | some shown =>
      obtain ⟨r, before⟩ := shown
      rw [seen] at heard
      obtain ⟨_, there, showed⟩ := heard
      obtain rfl := Option.some.inj (there.symm.trans here)
      have known : (r.result v.target).Keyed := r.keyed_result v.target
      have baseline : l.baseline v.target = r.result v.target := by
        rw [Listener.baseline, seen, Option.elim_some]
      refine ⟨shows.target.trans showed.target.symm, ?_, ?_⟩
      · rw [showed.held known, shows.held keyed, changes, baseline]
        exact v.target.changes_replay known keyed
      · by_cases none_changed : next.changes = []
        · right
          rw [shows.flags, showed.flags]
          exact news none_changed r before seen
        · exact .inl none_changed
  · rw [shows.target, shows.documents]
    exact v.target.sorted_strict keyed

/-- A listener is up to date if it was shown the present result, unless the view makes no claim. -/
def UpToDate (l : Listener) (v : View) : Prop :=
  v.replicas.shown.initialized →
    ∃ r flags, l.seen = some (r, flags) ∧ (r.result v.target).Agrees v.result

/-- A listener that a view was laid before is up to date, even if it was told nothing: then it has
    seen the same edition, or there was no change. -/
theorem upToDate_after {l : Listener} {v : View} {flags : Flags}
    (alike : ∀ r last, l.seen = some (r, last) → r.edition = v.replicas.shown.edition →
      r.documents = v.replicas.shown.documents) : (l.after v flags).UpToDate v := by
  intro complete
  unfold after
  split
  case isTrue => exact ⟨v.replicas.shown, flags, rfl, .refl _⟩
  case isFalse silent =>
    have quiet : l.next? v flags = none := by simpa using silent
    obtain ⟨r, last, seen, ⟨edition, initialized⟩ | unchanged⟩ := of_next?_eq_none quiet complete
    · have same : r.result v.target = v.result := by
        rw [View.result, Replica.result, Replica.result, alike r last seen edition, initialized]
      exact ⟨r, last, seen, same ▸ .refl _⟩
    · refine ⟨r, last, seen, v.target.agrees_of_changes_eq_nil ?_ ?_ unchanged⟩
      · exact r.keyed_result v.target
      · exact v.replicas.shown.keyed_result v.target

/-- A listener that is entered was sent snapshots that it can replay, and no fault. As long as it is
    attached, the entry says what it was shown last. -/
def Served (l : Listener) (t : Target) (events : List ListenEvent) : Prop :=
  ∃ snapshots, Replays snapshots ∧ events = snapshots.map .ok ∧
    (l.attached → l.Heard t snapshots)

/-- What a listener was sent before it was struck off is faithful. -/
theorem Served.faithful {l : Listener} {t : Target} {events : List ListenEvent}
    (served : l.Served t events) : Faithful events := by
  obtain ⟨snapshots, replays, rfl, -⟩ := served
  exact ⟨snapshots, none, replays, (List.append_nil _).symm⟩

/-- The last event may be a fault. -/
theorem Served.faithful_append {l : Listener} {t : Target} {events : List ListenEvent}
    (served : l.Served t events) (fault : Fault) : Faithful (events ++ [.error fault]) := by
  obtain ⟨snapshots, replays, rfl, -⟩ := served
  exact ⟨snapshots, some fault, replays, rfl⟩

/-- Laying a view before a listener changes neither whose it is nor whether it is attached. -/
theorem target_after (l : Listener) (v : View) (flags : Flags) :
    (l.after v flags).target = l.target := by
  unfold after
  split <;> rfl

/-- Laying the view before a listener serves it. One that is no longer attached gets nothing. -/
theorem Served.inform {l : Listener} {v : View} {events : List ListenEvent}
    (served : l.Served v.target events) (flags : Flags) :
    (l.after v flags).Served v.target (events ++ l.news v flags) := by
  obtain ⟨snapshots, replays, rfl, heard⟩ := served
  unfold after news
  cases spoken : l.next? v flags with
  | none => exact ⟨snapshots, replays, by simp, heard⟩
  | some next =>
    by_cases attached : l.attached
    · obtain ⟨replays, heard⟩ := replays_next replays (heard attached) spoken
      exact ⟨snapshots ++ [next], replays, by simp [attached], fun _ => heard⟩
    · exact ⟨snapshots, replays, by simp [attached], fun there => absurd there attached⟩

end Listener

namespace Engine

/-- What was told depends on the log alone. -/
theorem told_congr {e after : Engine} (same : after.deliveries = e.deliveries) (id : ListenerId) :
    after.told id = e.told id := by
  rw [told, told, same]

/-- The lines to the listeners are in order. At most the listeners of the targets in `behind` are
    not up to date. -/
structure Informed (behind : TargetId → Prop) (e : Engine) : Prop where
  /-- Listeners that are still to come were never sent anything. -/
  fresh : ∀ id : ListenerId, e.nextListener ≤ id.val → e.line id = ⟨none, []⟩
  /-- The listeners of a view are entered, as its own. -/
  listed : ∀ (t : TargetId) v, e.views[t]? = some v → ∀ id ∈ v.listeners,
    ∃ l, e.listeners[id]? = some l ∧ l.target = t
  struck : ∀ id : ListenerId, e.listeners[id]? = none → Faithful (e.told id)
  served : ∀ (id : ListenerId) l, e.listeners[id]? = some l →
    ∃ v, e.views[l.target]? = some v ∧ id ∈ v.listeners ∧ l.Served v.target (e.told id) ∧
      (¬behind l.target → l.UpToDate v)

namespace Informed

variable {behind : TargetId → Prop} {e after : Engine}

/-- A listener that is still to come is not entered. -/
theorem unentered (informed : Informed behind e) {id : ListenerId}
    (new : e.nextListener ≤ id.val) : e.listeners[id]? = none :=
  congrArg Line.entry (informed.fresh id new)

/-- More listeners may be behind. -/
theorem widen (informed : Informed behind e) {more : TargetId → Prop}
    (wider : ∀ t, behind t → more t) : Informed more e where
  fresh := informed.fresh
  listed := informed.listed
  struck := informed.struck
  served id l entered := by
    obtain ⟨v, viewed, member, served, current⟩ := informed.served id l entered
    exact ⟨v, viewed, member, served, fun ahead => current fun late => ahead (wider _ late)⟩

/-- Nothing here depends on anything but the books. -/
theorem aside (informed : Informed behind e) (same : e.SameBooks after) :
    Informed behind after where
  fresh id new := by
    rw [line, same.listeners, told_congr same.deliveries]
    exact informed.fresh id (same.nextListener ▸ new)
  listed t v viewed id member := by
    rw [same.listeners]
    exact informed.listed t v (same.views ▸ viewed) id member
  struck id absent := by
    rw [told_congr same.deliveries]
    exact informed.struck id (same.listeners ▸ absent)
  served id l entered := by
    rw [told_congr same.deliveries, same.views]
    exact informed.served id l (same.listeners ▸ entered)

/-- Editing the replicas of one view leaves at most its own listeners behind. -/
theorem edit (informed : Informed behind e) {more : TargetId → Prop} {id : TargetId}
    {f : View → View} (views : after.views = e.views.modify id f)
    (listeners : after.listeners = e.listeners) (nextListener : after.nextListener = e.nextListener)
    (deliveries : after.deliveries = e.deliveries)
    (same : ∀ v, (f v).target = v.target ∧ (f v).listeners = v.listeners)
    (wider : ∀ t, behind t → more t)
    (still : ¬more id → ∀ l v, Listener.UpToDate l v → l.UpToDate (f v)) :
    Informed more after where
  fresh other new := by
    rw [line, listeners, told_congr deliveries]
    exact informed.fresh other (nextListener ▸ new)
  listed t v viewed other member := by
    rw [listeners]
    rw [views, getElem?_modify_eq_some] at viewed
    obtain ⟨old, viewed, ⟨-, rfl⟩ | ⟨-, rfl⟩⟩ := viewed
    · exact informed.listed t old viewed other ((same old).2 ▸ member)
    · exact informed.listed t v viewed other member
  struck other absent := by
    rw [told_congr deliveries]
    exact informed.struck other (listeners ▸ absent)
  served other l entered := by
    rw [told_congr deliveries, views]
    obtain ⟨v, viewed, member, served, current⟩ := informed.served other l (listeners ▸ entered)
    by_cases here : id = l.target
    · refine ⟨f v, getElem?_modify_eq_some.mpr ⟨v, viewed, .inl ⟨here, rfl⟩⟩, ?_, ?_, ?_⟩
      · rw [(same v).2]
        exact member
      · rw [(same v).1]
        exact served
      · intro ahead
        exact still (here ▸ ahead) l v (current fun late => ahead (wider _ late))
    · refine ⟨v, getElem?_modify_eq_some.mpr ⟨v, viewed, .inr ⟨here, rfl⟩⟩, member, served, ?_⟩
      exact fun ahead => current fun late => ahead (wider _ late)

/-- A round of telling brings the listeners of a view up to date. -/
theorem dispatch (informed : Informed behind e) (editions : Editions e.Holds e.nextEdition)
    (id : TargetId) : Informed (fun t => behind t ∧ t ≠ id) (e.dispatch id) := by
  cases viewed : e.views[id]? with
  | none =>
    rw [dispatch_of_unviewed viewed]
    refine ⟨informed.fresh, informed.listed, informed.struck, ?_⟩
    intro other l entered
    obtain ⟨v, here, member, served, current⟩ := informed.served other l entered
    refine ⟨v, here, member, served, fun ahead => current fun late => ahead ⟨late, ?_⟩⟩
    rintro rfl
    cases viewed.symm.trans here
  | some v =>
    have views : (e.dispatch id).views = e.views := (onlyTells_dispatch e id).views
    constructor
    case fresh =>
      intro other new
      rw [(onlyTells_dispatch e id).nextListener] at new
      rw [e.line_dispatch viewed, informed.fresh other new]
      split <;> rfl
    case listed =>
      intro t w there other member
      obtain ⟨l, entered, rfl⟩ := informed.listed t w (views ▸ there) other member
      rw [e.listeners_dispatch viewed, entered]
      split
      · exact ⟨_, rfl, l.target_after v _⟩
      · exact ⟨l, rfl, rfl⟩
    case struck =>
      intro other absent
      have before : e.listeners[other]? = none := by
        rw [e.listeners_dispatch viewed] at absent
        split at absent
        · exact Option.map_eq_none_iff.mp absent
        · exact absent
      rw [e.told_dispatch viewed, before, Option.elim_none, List.append_nil, ite_self]
      exact informed.struck other before
    case served =>
      intro other l entered
      rw [e.listeners_dispatch viewed] at entered
      rw [e.told_dispatch viewed, views]
      split at entered
      case isTrue member =>
        obtain ⟨old, before, rfl⟩ := Option.map_eq_some_iff.mp entered
        obtain ⟨w, there, _, served, _⟩ := informed.served other old before
        obtain ⟨_, again, own⟩ := informed.listed id v viewed other member
        obtain rfl := Option.some.inj (before.symm.trans again)
        obtain rfl := Option.some.inj (viewed.symm.trans (own ▸ there))
        rw [Listener.target_after, own, if_pos member, before, Option.elim_some]
        refine ⟨v, viewed, member, served.inform _, fun _ => Listener.upToDate_after ?_⟩
        intro r last seen
        exact editions.alike r _ (.inr ⟨other, old, last, before, seen⟩) (holds_shown viewed)
      case isFalse other_view =>
        obtain ⟨w, there, member, served, current⟩ := informed.served other l entered
        rw [if_neg other_view]
        refine ⟨w, there, member, served, fun ahead => current fun late => ahead ⟨late, ?_⟩⟩
        rintro rfl
        exact other_view (Option.some.inj (viewed.symm.trans there) ▸ member)

/-- A view that is made has no listeners. -/
theorem ensureView (informed : Informed behind e) (id : TargetId) (t : Target) :
    Informed behind (e.ensureView id t) := by
  rcases ensureView_cases e id t with ⟨-, same⟩ | ⟨unviewed, server, -, made⟩
  · rwa [same]
  · rw [made]
    refine ⟨informed.fresh, ?_, informed.struck, ?_⟩
    · intro other v viewed listener member
      rw [ExtTreeMap.getElem?_insert] at viewed
      split at viewed
      case isTrue =>
        obtain rfl := Option.some.inj viewed
        exact absurd member ExtTreeSet.not_mem_empty
      case isFalse => exact informed.listed other v viewed listener member
    · intro listener l entered
      obtain ⟨v, viewed, rest⟩ := informed.served listener l entered
      refine ⟨v, ?_, rest⟩
      rw [ExtTreeMap.getElem?_insert]
      split
      case isTrue here =>
        rw [LawfulEqOrd.eq_of_compare here, viewed] at unviewed
        cases unviewed
      case isFalse => exact viewed

/-- A new listener was sent nothing, and is behind until it is told. -/
theorem attach (informed : Informed behind e) {id : TargetId} (viewed : id ∈ e.views) :
    Informed (fun t => behind t ∨ t = id) (e.attach id).2 := by
  let new : ListenerId := ⟨e.nextListener⟩
  have unused : e.line new = ⟨none, []⟩ := informed.fresh new (Nat.le_refl _)
  have unentered : e.listeners[new]? = none := informed.unentered (Nat.le_refl _)
  have listeners (other : ListenerId) : (e.attach id).2.listeners[other]? =
      if new = other then some { target := id } else e.listeners[other]? := by
    change (e.listeners.insert new { target := id })[other]? = _
    simp [ExtTreeMap.getElem?_insert]
  have views : (e.attach id).2.views =
      e.views.modify id fun v => { v with listeners := v.listeners.insert new } := rfl
  constructor
  case fresh =>
    intro other later
    have later : e.nextListener + 1 ≤ other.val := later
    have differs : new ≠ other := by
      rintro rfl
      exact Nat.not_succ_le_self _ later
    rw [line, listeners, if_neg differs]
    exact informed.fresh other (Nat.le_of_succ_le later)
  case listed =>
    intro t w there other member
    rw [listeners]
    rw [views, getElem?_modify_eq_some] at there
    by_cases same : new = other
    · refine ⟨_, if_pos same, ?_⟩
      obtain ⟨old, before, ⟨rfl, rfl⟩ | ⟨-, rfl⟩⟩ := there
      · rfl
      · obtain ⟨l, entered, _⟩ := informed.listed t w before other member
        rw [← same, unentered] at entered
        cases entered
    · rw [if_neg same]
      obtain ⟨old, before, ⟨rfl, rfl⟩ | ⟨-, rfl⟩⟩ := there
      · apply informed.listed id old before other
        exact (ExtTreeSet.mem_insert.mp member).resolve_left fun here =>
          same (LawfulEqOrd.eq_of_compare here)
      · exact informed.listed t w before other member
  case struck =>
    intro other absent
    rw [listeners] at absent
    split at absent
    · cases absent
    · exact informed.struck other absent
  case served =>
    intro other l entered
    rw [listeners] at entered
    rw [views]
    split at entered
    case isTrue same =>
      obtain rfl := Option.some.inj entered
      obtain ⟨v, here⟩ := Option.isSome_iff_exists.mp (ExtTreeMap.mem_iff_isSome_getElem?.mp viewed)
      refine ⟨_, getElem?_modify_eq_some.mpr ⟨v, here, .inl ⟨rfl, rfl⟩⟩, ?_, ?_, ?_⟩
      · exact ExtTreeSet.mem_insert.mpr (.inl (same ▸ ReflOrd.compare_self))
      · exact ⟨[], replays_nil, same ▸ congrArg Line.events unused, fun _ => rfl⟩
      · exact fun ahead => absurd (.inr rfl) ahead
    case isFalse =>
      obtain ⟨v, here, member, served, current⟩ := informed.served other l entered
      by_cases own : id = l.target
      · refine ⟨_, getElem?_modify_eq_some.mpr ⟨v, here, .inl ⟨own, rfl⟩⟩, ?_, served, ?_⟩
        · exact ExtTreeSet.mem_insert.mpr (.inr member)
        · exact fun ahead => current fun late => ahead (.inl late)
      · refine ⟨v, getElem?_modify_eq_some.mpr ⟨v, here, .inr ⟨own, rfl⟩⟩, member, served, ?_⟩
        exact fun ahead => current fun late => ahead (.inl late)

/-- What a listener was sent stays as it was when it is struck off. -/
theorem forget (informed : Informed behind e) {listener : ListenerId} {entry : Listener}
    (entered : e.listeners[listener]? = some entry) :
    Informed behind (e.forget listener entry.target) := by
  have listeners (other : ListenerId) : (e.forget listener entry.target).listeners[other]? =
      if listener = other then none else e.listeners[other]? := by
    change (e.listeners.erase listener)[other]? = _
    simp [ExtTreeMap.getElem?_erase]
  have views : (e.forget listener entry.target).views = e.views.modify entry.target fun v =>
      { v with listeners := v.listeners.erase listener } := rfl
  constructor
  case fresh =>
    intro other new
    rw [line, listeners, informed.unentered new, ite_self]
    exact congrArg (Line.mk none) (congrArg Line.events (informed.fresh other new))
  case listed =>
    intro t w there other member
    rw [listeners]
    rw [views, getElem?_modify_eq_some] at there
    obtain ⟨old, before, ⟨rfl, rfl⟩ | ⟨elsewhere, rfl⟩⟩ := there
    · obtain ⟨differs, member⟩ := ExtTreeSet.mem_erase.mp member
      have differs : listener ≠ other := fun same => differs (same ▸ ReflOrd.compare_self)
      rw [if_neg differs]
      exact informed.listed entry.target old before other member
    · obtain ⟨l, there, rfl⟩ := informed.listed t w before other member
      have differs : listener ≠ other := by
        rintro rfl
        exact elsewhere (congrArg Listener.target (Option.some.inj (entered.symm.trans there)))
      rw [if_neg differs]
      exact ⟨l, there, rfl⟩
  case struck =>
    intro other absent
    change Faithful (e.told other)
    rw [listeners] at absent
    split at absent
    case isTrue same =>
      obtain ⟨_, _, _, served, _⟩ := informed.served listener entry entered
      exact same ▸ served.faithful
    case isFalse => exact informed.struck other absent
  case served =>
    intro other l there
    rw [listeners] at there
    rw [views]
    split at there
    case isTrue => cases there
    case isFalse differs =>
      obtain ⟨v, here, member, served, current⟩ := informed.served other l there
      by_cases own : entry.target = l.target
      · refine ⟨_, getElem?_modify_eq_some.mpr ⟨v, here, .inl ⟨own, rfl⟩⟩, ?_, served, current⟩
        exact ExtTreeSet.mem_erase.mpr ⟨mt LawfulEqOrd.eq_of_compare differs, member⟩
      · exact ⟨v, getElem?_modify_eq_some.mpr ⟨v, here, .inr ⟨own, rfl⟩⟩, member, served, current⟩

/-- The listeners of a rejected target end with the fault, and no others. -/
theorem reject (informed : Informed behind e) (rejection : Rejection) :
    Informed behind (e.rejectTarget rejection) := by
  cases viewed : e.views[rejection.target]? with
  | none => exact informed.aside (sameBooks_rejectTarget viewed)
  | some v =>
    have views (t : TargetId) : (e.rejectTarget rejection).views[t]? =
        if rejection.target = t then none else e.views[t]? := by
      rw [views_rejectTarget]
      simp [ExtTreeMap.getElem?_erase]
    constructor
    case fresh =>
      intro other new
      rw [(counters_rejectTarget e rejection).1] at new
      rw [e.line_rejectTarget viewed, informed.fresh other new]
      split <;> rfl
    case listed =>
      intro t w there other member
      rw [views] at there
      split at there
      case isTrue => cases there
      case isFalse elsewhere =>
        obtain ⟨l, entered, rfl⟩ := informed.listed t w there other member
        have spared : other ∉ v.listeners := by
          intro listening
          obtain ⟨_, again, own⟩ := informed.listed rejection.target v viewed other listening
          rw [entered] at again
          exact elsewhere (Option.some.inj again ▸ own.symm)
        rw [e.listeners_rejectTarget viewed, if_neg spared]
        exact ⟨l, entered, rfl⟩
    case struck =>
      intro other absent
      rw [e.listeners_rejectTarget viewed] at absent
      rw [e.told_rejectTarget viewed]
      by_cases listening : other ∈ v.listeners
      · obtain ⟨l, entered, _⟩ := informed.listed rejection.target v viewed other listening
        obtain ⟨_, _, _, served, _⟩ := informed.served other l entered
        rw [if_pos listening, entered, Option.elim_some]
        split
        · exact served.faithful_append rejection.fault
        · rw [List.append_nil]
          exact served.faithful
      · rw [if_neg listening] at absent ⊢
        exact informed.struck other absent
    case served =>
      intro other l entered
      rw [e.listeners_rejectTarget viewed] at entered
      rw [e.told_rejectTarget viewed, views]
      split at entered
      case isTrue => cases entered
      case isFalse spared =>
        obtain ⟨w, there, member, rest⟩ := informed.served other l entered
        have elsewhere : rejection.target ≠ l.target := by
          intro same
          rw [← same, viewed] at there
          exact spared (Option.some.inj there ▸ member)
        rw [if_neg elsewhere, if_neg spared]
        exact ⟨w, there, member, rest⟩

/-- A view with a listener is not dropped. -/
theorem prune (informed : Informed behind e) : Informed behind e.prune where
  fresh := informed.fresh
  listed t v viewed := by
    rw [Engine.prune, ExtTreeMap.getElem?_filter', Option.filter_eq_some_iff] at viewed
    exact informed.listed t v viewed.1
  struck := informed.struck
  served id l entered := by
    obtain ⟨v, viewed, member, rest⟩ := informed.served id l entered
    refine ⟨v, ?_, member, rest⟩
    rw [Engine.prune, ExtTreeMap.getElem?_filter', Option.filter_eq_some_iff]
    have someone : v.listeners.isEmpty = false := by
      rw [ExtTreeSet.isEmpty_eq_false_iff]
      intro nobody
      rw [nobody] at member
      exact ExtTreeSet.not_mem_empty member
    exact ⟨viewed, by rw [someone]; rfl⟩

/-- A listener that gave up gets nothing more, and its entry may say what it likes. -/
theorem detach (informed : Informed behind e) (id : ListenerId) :
    Informed behind (e.detach id) := by
  have listeners : (e.detach id).listeners =
      e.listeners.modify id fun l => { l with attached := false } := rfl
  constructor
  case fresh =>
    intro other new
    rw [line, listeners, getElem?_modify_eq_none.mpr (informed.unentered new)]
    exact congrArg (Line.mk none) (congrArg Line.events (informed.fresh other new))
  case listed =>
    intro t v viewed other member
    obtain ⟨l, entered, own⟩ := informed.listed t v viewed other member
    rw [listeners]
    by_cases same : id = other
    · exact ⟨_, getElem?_modify_eq_some.mpr ⟨l, entered, .inl ⟨same, rfl⟩⟩, own⟩
    · exact ⟨l, getElem?_modify_eq_some.mpr ⟨l, entered, .inr ⟨same, rfl⟩⟩, own⟩
  case struck =>
    intro other absent
    exact informed.struck other (getElem?_modify_eq_none.mp absent)
  case served =>
    intro other l entered
    rw [listeners, getElem?_modify_eq_some] at entered
    obtain ⟨old, entered, ⟨-, rfl⟩ | ⟨-, rfl⟩⟩ := entered
    · obtain ⟨v, viewed, member, ⟨snapshots, replays, told, _⟩, current⟩ :=
        informed.served other old entered
      refine ⟨v, viewed, member, ⟨snapshots, replays, told, ?_⟩, current⟩
      exact fun attached => absurd attached Bool.false_ne_true
    · exact informed.served other l entered

end Informed

/-- No step leaves a listener behind: where what a view shows is made anew, and where a listener is
    new, a round of telling follows. -/
theorem Passes.informed {lagging : TargetId → Prop} {e : Engine} (passed : Passes lagging e) :
    Informed (fun _ => False) e := by
  induction passed with
  | @start config store e read =>
    obtain ⟨pending, made⟩ := ofStore_eq read
    have silent (id : ListenerId) : e.line id = ⟨none, []⟩ := by simp [made, line, told]
    constructor
    case fresh => exact fun id _ => silent id
    case listed =>
      intro t v viewed
      simp [made] at viewed
    case struck =>
      intro id _
      exact ⟨[], none, replays_nil, congrArg Line.events (silent id)⟩
    case served =>
      intro id l entered
      cases (congrArg Line.entry (silent id)).symm.trans entered
  | widen _ _ ih => exact ih
  | aside _ same ih => exact ih.aside same
  | requeue _ _ _ _ ih => exact ⟨ih.fresh, ih.listed, ih.struck, ih.served⟩
  | @absorb _ e _ event id ih =>
    cases viewed : e.views[id]? with
    | none => rwa [absorb_of_unviewed viewed]
    | some v =>
      rw [absorb_of_viewed viewed]
      exact ih.edit (insert_eq_modify viewed (·.withServer _)) rfl rfl rfl
        (fun _ => ⟨rfl, rfl⟩) (fun _ late => late) fun _ _ _ current => current
  | @recompute _ e passed id ih =>
    cases viewed : e.views[id]? with
    | none => rwa [recompute_of_unviewed viewed]
    | some v =>
      have laid : Informed (· = id) (e.overlay id v) :=
        ih.edit (insert_eq_modify viewed (·.withShown _)) rfl rfl rfl (fun _ => ⟨rfl, rfl⟩)
          (fun _ => False.elim) fun ahead => absurd rfl ahead
      rw [recompute_of_viewed viewed]
      exact (laid.dispatch (editions_overlay passed.editions viewed) id).widen
        fun _ late => late.2 late.1
  | dispatch passed id ih => exact (ih.dispatch passed.editions id).widen fun _ late => late.1
  | ensureView _ id t ih => exact ih.ensureView id t
  | @join _ e passed id viewed ih =>
    exact ((ih.attach viewed).dispatch (editions_attach passed.editions id) id).widen
      fun _ late => late.1.elim False.elim late.2
  | forget _ entered ih => exact ih.forget entered
  | reject _ rejection ih => exact ih.reject rejection
  | prune _ ih => exact ih.prune
  | detach _ id ih => exact ih.detach id

end Engine

end LiveQuery
