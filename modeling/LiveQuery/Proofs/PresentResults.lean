import LiveQuery.Proofs.SnapshotBoundaries

/-!
# The latest snapshot and the present result

A listener can replay its snapshots, and the latest of them holds the documents of
the present result of its view, up to the equality of documents. Whether they also
stand in the order of the result depends on the target. A write that does not change
a document, such as one that turns a zero into the other zero, is no news, and the
listener is told nothing. A target that orders by the field then puts the document
into another place of the result, while the listener keeps the old order.

The order is that of the result exactly if the listener's order is in order for the
present states of its documents. So a target can be trusted that orders no equal
documents apart, and every target that orders by keys alone.
-/

namespace LiveQuery

open Std

/-- A target without a field to order by ranks equal documents alike. -/
theorem Target.compare_of_same {t : Target} (plain : ∀ q, t = .query q → q.orderBy = none)
    {a b : Document} (same : a.same b = true) : t.compare a b = .eq := by
  have keys : Ord.compare a.key b.key = .eq := by
    rw [Document.key_of_same same]
    exact ReflOrd.compare_self
  cases t with
  | document own => exact keys
  | query q =>
    obtain ⟨collection, filters, orderBy⟩ := q
    obtain rfl : orderBy = none := plain _ rfl
    exact keys

/-- A snapshot presents a result of a target: it holds the documents of the result, in the order of
    the target. They stand in the order of the result exactly if the states that the result has of
    them are in order as they stand. -/
structure ViewSnapshot.Presents (s : ViewSnapshot) (t : Target) (result : Documents) : Prop where
  target : s.target = t
  sorted : s.documents = t.sorted s.held
  held : s.held.Agrees result
  ordered : Document.Match s.documents (t.sorted result) ↔ s.documents.Pairwise fun a b =>
    t.compare (result.counterpart a) (result.counterpart b) = .lt
  /-- They do if the target orders no two documents apart that are the same. -/
  tied : (∀ a ∈ s.documents, ∀ b ∈ t.sorted result, a.same b = true → t.compare a b = .eq) →
    Document.Match s.documents (t.sorted result)

/-- A snapshot that showed one result presents every result that agrees with it. -/
theorem ViewSnapshot.Shows.presents {s : ViewSnapshot} {t : Target} {known result : Documents}
    {flags : Flags} (shows : s.Shows t known flags) (keyed : known.Keyed)
    (keyed' : result.Keyed) (agrees : known.Agrees result) : s.Presents t result := by
  have held : s.held = known := shows.held keyed
  have placed := t.match_sorted_iff keyed keyed' agrees
  rw [← shows.documents] at placed
  refine ⟨shows.target, held ▸ shows.documents, held ▸ agrees, placed, fun tied => ?_⟩
  rw [placed, shows.documents]
  rw [shows.documents] at tied
  exact t.ordered_of_tied keyed keyed' agrees tied

namespace Engine

/-- What every listener can rely on, in every engine that comes about. Its snapshots can be replayed
    and only a fault ends them; and while it is attached and entered, its view is there, and if that
    is initialized, the latest event is a snapshot that presents the present result. -/
theorem listeners_follow_results {e : Engine} (reached : e.Reachable) (id : ListenerId) :
    Faithful (e.told id) ∧
      ∀ l, e.listeners[id]? = some l → l.attached → ∃ v, e.views[l.target]? = some v ∧
        (v.replicas.shown.initialized → ∃ last, (e.told id).getLast? = some (.ok last) ∧
          last.Presents v.target v.result) := by
  have informed := reached.settled.informed
  constructor
  · cases entered : e.listeners[id]? with
    | none => exact informed.struck id entered
    | some l =>
      obtain ⟨_, _, _, served, _⟩ := informed.served id l entered
      exact served.faithful
  · intro l entered attached
    obtain ⟨v, viewed, -, ⟨snapshots, -, told, heard⟩, current⟩ := informed.served id l entered
    refine ⟨v, viewed, fun complete => ?_⟩
    obtain ⟨r, flags, seen, agrees⟩ := current (fun late => late) complete
    have heard := heard attached
    rw [Listener.Heard, seen] at heard
    obtain ⟨last, latest, shows⟩ := heard
    refine ⟨last, ?_, shows.presents (r.keyed_result v.target) ?_ agrees⟩
    · rw [told, List.getLast?_map, latest, Option.map_some]
    · exact v.replicas.shown.keyed_result v.target

/-- A document is listened to, set and deleted again, all without a stream. -/
def offlineDeletion : Engine :=
  blank.run [.listen (.document ⟨"c/a"⟩), .submit [.set ⟨"c/a"⟩ ∅], .submit [.delete ⟨"c/a"⟩]]

/-- The listener is sent the document and then its removal, and then holds the present result. -/
theorem offline_deletion_is_followed :
    offlineDeletion.Reachable ∧ (offlineDeletion.told ⟨1⟩).length = 2 ∧
      Faithful (offlineDeletion.told ⟨1⟩) ∧ ∃ v last,
        offlineDeletion.views[(⟨1⟩ : TargetId)]? = some v ∧
        (offlineDeletion.told ⟨1⟩).getLast? = some (.ok last) ∧ last.Presents v.target v.result ∧
        Document.Match last.documents (v.target.sorted v.result) := by
  have reached : offlineDeletion.Reachable := reachable_blank.run _
  obtain ⟨faithful, follows⟩ := listeners_follow_results reached ⟨1⟩
  have entered : (offlineDeletion.listeners[(⟨1⟩ : ListenerId)]?.any fun l =>
      l.attached && l.target == ⟨1⟩) = true := by decide +kernel
  have complete : (offlineDeletion.views[(⟨1⟩ : TargetId)]?.any fun v =>
      v.replicas.shown.initialized && v.target.isDocument) = true := by decide +kernel
  obtain ⟨l, entered, state⟩ := (Option.any_eq_true _ _).mp entered
  obtain ⟨attached, own⟩ := Bool.and_eq_true_iff.mp state
  obtain ⟨v, viewed, latest⟩ := follows l entered attached
  rw [beq_iff_eq.mp own] at viewed
  rw [viewed, Option.any_some] at complete
  obtain ⟨initialized, document⟩ := Bool.and_eq_true_iff.mp complete
  obtain ⟨last, told, presents⟩ := latest initialized
  have plain : ∀ q, v.target = .query q → q.orderBy = none := by
    intro q same
    rw [same] at document
    cases document
  refine ⟨reached, by decide +kernel, faithful, v, last, viewed, told, presents, presents.tied ?_⟩
  exact fun _ _ _ _ same => Target.compare_of_same plain same

/-- After the collection was shown in the order of "x", one of the two zeros is reported with the
    other sign, and the report is closed. -/
def signTurned : Engine :=
  blank.run (tied ++ [.handle (.watch (.documentChanged (zeroed "b" true) [⟨1⟩] [])) .zero,
    .handle (.watch (.snapshot ⟨2⟩)) .zero])

/-- The report is no news, so the latest snapshot keeps the order that the documents had. In the
    present result they stand the other way round. -/
theorem old_order_stays_shown :
    signTurned.Reachable ∧ ∃ l v last, signTurned.listeners[(⟨1⟩ : ListenerId)]? = some l ∧
      l.attached = true ∧ signTurned.views[l.target]? = some v ∧
      v.replicas.shown.initialized = true ∧ (signTurned.told ⟨1⟩).getLast? = some (.ok last) ∧
      last.documents.map (·.key) = [⟨"c/a"⟩, ⟨"c/b"⟩] ∧
      (v.target.sorted v.result).map (·.key) = [⟨"c/b"⟩, ⟨"c/a"⟩] := by
  have entered : (signTurned.listeners[(⟨1⟩ : ListenerId)]?.any fun l =>
      l.attached && l.target == ⟨1⟩) = true := by decide +kernel
  have shown : (signTurned.views[(⟨1⟩ : TargetId)]?.any fun v =>
      v.replicas.shown.initialized &&
        (v.target.sorted v.result).map (·.key) == [⟨"c/b"⟩, ⟨"c/a"⟩]) = true := by
    decide +kernel
  have outlined : (signTurned.told ⟨1⟩).map ListenEvent.outline =
      [some (2, [⟨"c/a"⟩, ⟨"c/b"⟩])] := by decide +kernel
  obtain ⟨l, entered, state⟩ := (Option.any_eq_true _ _).mp entered
  obtain ⟨attached, own⟩ := Bool.and_eq_true_iff.mp state
  obtain ⟨v, viewed, state⟩ := (Option.any_eq_true _ _).mp shown
  obtain ⟨complete, order⟩ := Bool.and_eq_true_iff.mp state
  obtain ⟨event, only, outlined⟩ := List.map_eq_singleton_iff.mp outlined
  obtain ⟨last, rfl, -, keys⟩ := ListenEvent.of_outline outlined
  refine ⟨reachable_blank.run _, l, v, last, entered, attached, ?_, complete, ?_, keys,
    beq_iff_eq.mp order⟩
  · rw [beq_iff_eq.mp own]
    exact viewed
  · rw [only]
    rfl

end Engine

end LiveQuery
