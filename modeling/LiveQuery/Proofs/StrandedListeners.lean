import LiveQuery.Proofs.History

/-!
# Listeners whose target is gone

When the server gives up a target that somebody listens to, each of its listeners
gets one error and is struck off. The exception is a removal that breaks on a
later target: by then the targets before it are released, but their rejections
are lost with the fault, and their listeners stay entered for targets that nobody
serves any more. Listeners are stranded in this way and in no other.
-/

namespace LiveQuery

open Std

namespace History

variable {past : List Moment} {e : Engine} {x : ListenerId} {t : TargetId}

/-- Every moment of a history has a history. -/
theorem earlier (history : History past e) {m : Moment} (member : m ∈ past) :
    ∃ earlier, History earlier m.before := by
  induction history with
  | start => exact absurd member List.not_mem_nil
  | @step past e before happening ih =>
    rcases List.mem_cons.mp member with rfl | among
    · exact ⟨past, before⟩
    · exact ih among

/-- A target that a removal strands is gone right away. -/
theorem gone_of_strands (history : History past e) {happening : Happening}
    (strands : Moment.Strands ⟨e, happening⟩ t) :
    (e.meet happening).stream.subscriptions.table[t]? = none ∧
      t.val < (e.meet happening).stream.subscriptions.nextId := by
  obtain ⟨action, same, change, ⟨opened, now, rfl⟩, stranded⟩ := strands
  obtain rfl : happening = .call _ := same
  obtain ⟨-, gone⟩ := WatchStream.strands_receive opened stranded
  obtain ⟨received, gains⟩ := WatchStream.gains_receive history.sound change
  obtain ⟨⟨sub, entered, -⟩, -⟩ := stranded
  have given : t.val < (e.stream.receive change).1.subscriptions.nextId :=
    Nat.lt_of_lt_of_le (history.sound.numbered t sub entered).2 gains.retires.nextId
  change (e.receive change).stream.subscriptions.table[t]? = none ∧
    t.val < (e.receive change).stream.subscriptions.nextId
  rcases Engine.stream_receive opened change with same | restarted
  · exact same ▸ ⟨gone, given⟩
  · obtain ⟨-, lost⟩ := WatchStream.Turn.fades (.restart _) received
    exact restarted ▸ ⟨lost.retires.gone t gone given,
      Nat.lt_of_lt_of_le given lost.retires.nextId⟩

/-- And it never comes back. -/
theorem gone_of_stranded (history : History past e) {m : Moment} (member : m ∈ past)
    (strands : m.Strands t) :
    e.stream.subscriptions.table[t]? = none ∧ t.val < e.stream.subscriptions.nextId := by
  induction history with
  | start => exact absurd member List.not_mem_nil
  | @step past e before happening ih =>
    rcases List.mem_cons.mp member with rfl | among
    · exact before.gone_of_strands strands
    · obtain ⟨gone, given⟩ := ih among
      obtain ⟨-, gains⟩ := Moment.gains ⟨e, happening⟩ before.sound
      exact ⟨gains.retires.gone t gone given, Nat.lt_of_lt_of_le given gains.retires.nextId⟩

/-- Somebody listens to the target of every listener, unless a removal stranded it. -/
theorem heard_of_unstranded (history : History past e) {l : Listener}
    (entered : e.listeners[x]? = some l) (spared : ∀ m ∈ past, ¬m.Strands l.target) :
    e.stream.Heard l.target := by
  induction history generalizing l with
  | start read =>
    obtain ⟨pending, rfl⟩ := Engine.ofStore_eq read
    exact nomatch ExtTreeMap.getElem?_empty.symm.trans entered
  | @step past e before happening ih =>
    obtain ⟨now, earlier⟩ := List.forall_mem_cons.mp spared
    cases happening with
    | restock store => exact ih entered earlier
    | detach id =>
      obtain ⟨old, there, ⟨-, rfl⟩ | ⟨-, rfl⟩⟩ := getElem?_modify_eq_some.mp entered
      · exact ih (l := old) there earlier
      · exact ih there earlier
    | call action =>
      have informed := before.reachable.settled.informed
      rcases Engine.entered_perform informed before.sound entered with
        ⟨old, there, own⟩ | ⟨target, rfl, rfl, own⟩
      · rw [← own] at now earlier ⊢
        have heard := ih there earlier
        cases Engine.Course.perform informed before.sound there action with
        | spoken _ kept =>
          exact (kept heard).resolve_right fun strands => now ⟨action, rfl, strands⟩
        | still _ kept _ => exact kept heard
        | ended status line _ _ =>
          cases entered.symm.trans ((congrArg Line.entry line).trans (Line.entry_finish ..))
        | left _ line => cases entered.symm.trans (congrArg Line.entry line)
      · change (e.listen target).2.stream.Heard l.target
        rw [own, Engine.stream_listen]
        exact (WatchStream.heard_listen before.sound target).1

/-- Whoever is struck off is told nothing any more. -/
theorem line_of_struck (history : History past e) {m : Moment} (member : m ∈ past)
    (struck : m.after.listeners[x]? = none) (known : x.val < m.after.nextListener) :
    e.line x = m.after.line x ∧ x.val < e.nextListener := by
  induction history with
  | start => exact absurd member List.not_mem_nil
  | @step past e before happening ih =>
    rcases List.mem_cons.mp member with rfl | among
    · exact ⟨rfl, known⟩
    · obtain ⟨line, known⟩ := ih among
      have absent : e.listeners[x]? = none := (congrArg Line.entry line).trans struck
      cases happening with
      | restock store => exact ⟨line, known⟩
      | detach id =>
        refine ⟨Eq.trans ?_ line, known⟩
        have still : (e.detach id).listeners[x]? = none := getElem?_modify_eq_none.mpr absent
        rw [Engine.meet, Engine.line, Engine.line, still, absent]
        rfl
      | call action =>
        have silent := Engine.silent_perform (x := x) e action (by
          rintro target - rfl
          exact Nat.lt_irrefl _ known)
        exact ⟨(silent.line absent).trans line, Nat.lt_of_lt_of_le known silent.next⟩

end History

/-- A call that hands an event of the stream to the engine takes a target from somebody who listens
    to it. -/
def Moment.TearsDown (m : Moment) (t : TargetId) : Prop :=
  (∃ event now, m.happening = .call (.handle event now)) ∧ m.before.stream.Heard t ∧
    ¬m.after.stream.Heard t

/-- The listeners of a target that is taken from them are struck off with one error, unless they are
    stranded. -/
theorem History.finish_of_tearsDown {past : List Moment} {e : Engine} (history : History past e)
    {happening : Happening} {x : ListenerId} {l : Listener} (entered : e.listeners[x]? = some l)
    (torn : Moment.TearsDown ⟨e, happening⟩ l.target)
    (spared : ¬Moment.Strands ⟨e, happening⟩ l.target) :
    ∃ status, (e.meet happening).line x =
      (e.line x).finish (.error (.targetRejected l.target status)) := by
  obtain ⟨⟨event, now, same⟩, heard, gone⟩ := torn
  obtain rfl : happening = .call (.handle event now) := same
  have informed := history.reachable.settled.informed
  cases Engine.Course.perform informed history.sound entered (.handle event now) with
  | spoken _ kept =>
    rcases kept heard with still | strands
    · exact absurd still gone
    · exact absurd ⟨_, rfl, strands⟩ spared
  | still _ kept _ => exact absurd (kept heard) gone
  | ended status line _ _ => exact ⟨status, line⟩
  | left impossible _ => cases impossible

namespace Engine

/-- Every listener that is entered listens to a target that the stream serves, but for those that a
    broken removal stranded. Whenever the server takes the target of a listener away in any other
    way, the listener is struck off for good, and if it was attached then the last thing it is ever
    told is one error, after nothing but snapshots. -/
theorem listeners_are_served_or_ended {past : List Moment} {e : Engine}
    (history : History past e) :
    (∀ (x : ListenerId) l, e.listeners[x]? = some l →
      (e.stream.Heard l.target ↔ ∀ m ∈ past, ¬m.Strands l.target)) ∧
    ∀ m ∈ past, ∀ (x : ListenerId) l, m.before.listeners[x]? = some l →
      m.TearsDown l.target → ¬m.Strands l.target →
        e.listeners[x]? = none ∧ ∃ (status : Status) (snapshots : List ViewSnapshot),
          e.told x = snapshots.map .ok ++
            if l.attached then [.error (.targetRejected l.target status)] else [] := by
  constructor
  · intro x l entered
    refine ⟨fun heard m member strands => ?_, history.heard_of_unstranded entered⟩
    obtain ⟨sub, there, -⟩ := heard
    cases there.symm.trans (history.gone_of_stranded member strands).1
  · intro m member x l entered torn spared
    obtain ⟨earlier, before⟩ := history.earlier member
    obtain ⟨status, finished⟩ := before.finish_of_tearsDown entered torn spared
    have informed := before.reachable.settled.informed
    have struck : m.after.listeners[x]? = none :=
      (congrArg Line.entry finished).trans (Line.entry_finish ..)
    have known : x.val < m.after.nextListener := by
      obtain ⟨⟨event, now, same⟩, -⟩ := torn
      have silent := silent_perform (x := x) m.before (.handle event now) nofun
      have given : x.val < m.before.nextListener := by
        refine Nat.lt_of_not_le fun new => ?_
        cases (informed.unentered new).symm.trans entered
      rw [Moment.after, same]
      exact Nat.lt_of_lt_of_le given silent.next
    obtain ⟨line, -⟩ := history.line_of_struck member struck known
    refine ⟨(congrArg Line.entry line).trans struck, status, ?_⟩
    obtain ⟨v, -, -, ⟨snapshots, -, told, -⟩, -⟩ := informed.served x l entered
    refine ⟨snapshots, ?_⟩
    have events := (congrArg Line.events (line.trans finished)).trans (Line.events_finish ..)
    change e.told x = m.before.told x ++ m.before.listeners[x]?.elim [] _ at events
    rw [entered, told] at events
    exact events

/-- A listener on an open stream, before the server says anything of its target. -/
def awaiting : Engine :=
  blank.run [.listen (.query (.ofPath "c")), .connect, .handle .opened .zero]

/-- The server removes targets, and gives a cause. -/
def removal (ids : List TargetId) : Action :=
  .handle (.watch (.targetRemoved ids (some ⟨.permissionDenied, "no"⟩))) .zero

/-- A removal of the one target there is strands nobody and ends its listener. -/
theorem removal_ends_listener :
    let m : Moment := ⟨awaiting, .call (removal [⟨1⟩])⟩
    ∃ past l, History (m :: past) m.after ∧
      m.before.listeners[(⟨1⟩ : ListenerId)]? = some l ∧ m.TearsDown l.target ∧
      ¬m.Strands l.target ∧ m.after.listeners[(⟨1⟩ : ListenerId)]? = none ∧
      ∃ status, m.after.told ⟨1⟩ = [.error (.targetRejected l.target status)] := by
  intro m
  have history : History _ m.after := (history_blank.run _).step (.call (removal [⟨1⟩]))
  have present : (m.before.listeners[(⟨1⟩ : ListenerId)]?.any fun l =>
      l.attached && l.target == ⟨1⟩) = true := by
    decide +kernel
  obtain ⟨l, entered, state⟩ := (Option.any_eq_true _ _).mp present
  obtain ⟨attached, own⟩ := Bool.and_eq_true_iff.mp state
  rw [beq_iff_eq] at own
  have torn : m.TearsDown l.target := by
    rw [own]
    exact ⟨⟨_, _, rfl⟩, by decide +kernel, by decide +kernel⟩
  have spared : ¬m.Strands l.target := by
    rintro ⟨_, here, _, ⟨-, _, taken⟩, -, front, ids, status, removed, ⟨-, bad, rest, split, -⟩,
      among⟩
    obtain rfl := Happening.call.inj here
    cases taken
    cases removed
    cases front with
    | nil => cases among
    | cons => simp at split
  obtain ⟨-, ends⟩ := listeners_are_served_or_ended history
  obtain ⟨struck, status, snapshots, told⟩ := ends m List.mem_cons_self ⟨1⟩ l entered torn spared
  have once : (m.after.told ⟨1⟩).length = 1 := by decide +kernel
  rw [attached, if_pos rfl] at told
  rw [told, List.length_append, List.length_map] at once
  obtain rfl : snapshots = [] := List.eq_nil_of_length_eq_zero (Nat.succ.inj once)
  exact ⟨_, l, history, entered, torn, spared, struck, status, told⟩

/-- A removal that names an unknown target after that of a listener leaves the listener entered,
    tells it nothing, and takes its target away. -/
theorem broken_removal_strands_listener :
    let e := (awaiting.perform (removal [⟨1⟩, ⟨9⟩])).2
    e.Reachable ∧ e.told ⟨1⟩ = [] ∧
      ∃ l, e.listeners[(⟨1⟩ : ListenerId)]? = some l ∧ ¬e.stream.Heard l.target := by
  intro e
  have present : (e.listeners[(⟨1⟩ : ListenerId)]?.any (·.target == ⟨1⟩)) = true := by
    decide +kernel
  have untold : (e.told ⟨1⟩).isEmpty = true := by decide +kernel
  obtain ⟨l, entered, own⟩ := (Option.any_eq_true _ _).mp present
  refine ⟨(reachable_blank.run _).perform _, List.isEmpty_iff.mp untold, l, entered, ?_⟩
  rw [beq_iff_eq.mp own]
  decide +kernel

end Engine

end LiveQuery
