import LiveQuery.Proofs.AddRequests
import LiveQuery.Proofs.FedReplicas

/-!
# Targets that are resumed or repeated

A request to add a target goes out with a token or without one, and the server answers
accordingly: it reports what changed since, or it repeats the whole result. Either way
the replica fits the answer. A target that is resumed has a complete replica to build
on, and one that is repeated is reset, so it keeps nothing that was not reported since
it was activated.
-/

namespace LiveQuery

open Std

namespace WatchStream

variable {s after : WatchStream} {ids : List TargetId} {t : TargetId} {reset : Bool}

theorem Accepts.mem (accepts : s.Accepts ids t reset after) : t ∈ ids := by
  obtain ⟨-, front, rest, -, -, rfl, -⟩ := accepts
  exact List.mem_append_right front List.mem_cons_self

/-- The one answer that a target awaits activates it. -/
theorem accepts_of_awaited (opened : s.state = .opened) {sub : Subscription}
    (entered : s.subscriptions.table[t]? = some sub) (awaited : sub.adds = 1)
    (heard : sub.listening = true) : ∃ after, s.Accepts [t] t sub.token.isNone after := by
  let next : Subscription := { sub with adds := sub.adds - 1 }
  have active : next.isActive = true := by simp [next, Subscription.isActive, awaited, heard]
  have answered : s.subscriptions.added t =
      .ok (.activated sub.token.isNone, s.subscriptions.put next) := by
    unfold Subscriptions.added
    rw [entered]
    dsimp only
    rw [if_neg (by simp [awaited]), if_pos active]
  have done : ∃ after, s.targetAdded t = .ok after := by
    unfold targetAdded
    rw [answered]
    exact ⟨_, rfl⟩
  obtain ⟨after, done⟩ := done
  exact ⟨after, opened, [], [], s, _, rfl, rfl, answered, done⟩

end WatchStream

namespace Engine

/-- Additions that all fit are taken in, and after a fault the stream is started anew. -/
theorem stream_receive_added {e : Engine} (opened : e.stream.state = .opened)
    (ids : List TargetId) :
    (WatchStream.targetsAdded ids e.stream).2 = .ok () ∧
        (e.receive (.targetAdded ids)).stream = (WatchStream.targetsAdded ids e.stream).1 ∨
      ∃ broken : WatchStream, (e.receive (.targetAdded ids)).stream = broken.restart := by
  have taken : e.stream.receive (.targetAdded ids) = ((WatchStream.targetsAdded ids e.stream).1,
      (WatchStream.targetsAdded ids e.stream).2.map fun _ => .collected) := by
    rw [WatchStream.receive, if_neg (not_not_intro opened)]
  rw [receive_eq opened, taken]
  cases done : (WatchStream.targetsAdded ids e.stream).2 with
  | ok => exact .inl ⟨rfl, rfl⟩
  | error fault => exact .inr ⟨_, stream_resync _⟩

/-- After a report that activates a target without a token, nothing of what is held of the target
    counts, and nothing is collected of it yet. -/
theorem fed_of_activated {e : Engine} (sound : e.stream.Sound) (frugal : e.stream.Frugal)
    (opened : e.stream.state = .opened) {ids : List TargetId} {t : TargetId} (named : t ∈ ids)
    (unvouched : ¬e.stream.Vouches t) :
    (e.receive (.targetAdded ids)).Fed (fun _ => False) (fun _ _ => True) t := by
  rcases stream_receive_added opened ids with ⟨done, same⟩ | ⟨broken, same⟩
  · obtain ⟨renewed, -⟩ := WatchStream.renewed_targetsAdded ids sound.numbered frugal done
    rw [← same] at renewed
    refine ⟨fun vouches => absurd (renewed.vouches vouches) unvouched, ?_, fun _ _ _ => trivial⟩
    intro change here
    rw [renewed.changes, if_pos named] at here
    cases here
  · refine ⟨fun vouches => ?_, fun change here => ?_, fun _ _ _ => trivial⟩
    · rw [same] at vouches
      rcases vouches with resumable | ⟨live, -⟩
      · exact absurd resumable (broken.unresumable_restart t)
      · cases live.1
    · rw [same] at here
      cases here.symm.trans ExtTreeMap.getElem?_empty

/-- Whatever came before, as long as it came over the stream or from calls: a target that holds a
    token has a complete replica, and when a request to add a target is accepted and activates it,
    the target is to be reset if and only if the last request to add it came without a token. With a
    token the replica is complete at that time. Without one, whenever the stream vouches for the
    replica later, every key in it was delivered for the target since. -/
theorem tokens_stand_for_replicas {past : List Moment} {e : Engine} (history : History past e)
    (driven : Driven past) :
    (∀ t, e.stream.Resumable t → e.Complete t) ∧
      ∀ (ids : List TargetId) (t : TargetId) (reset : Bool) (middle : WatchStream),
        e.stream.Accepts ids t reset middle → ∃ token, lastAdd t past = some token ∧
          reset = token.isNone ∧ (t ∈ middle.collected.resets ↔ token = none) ∧
          (token ≠ none → e.Complete t) ∧
          (token = none → ∀ (now : Duration) (recent : List Moment) (after : Engine),
            History (recent ++ ⟨e, .call (.handle (.watch (.targetAdded ids)) now)⟩ :: past)
              after → Driven recent → after.stream.Vouches t →
            after.HoldsOnly t fun key _ => ∃ m ∈ recent, m.Delivers t key) := by
  refine ⟨history.complete_of_resumable driven, fun ids t reset middle accepts => ?_⟩
  obtain ⟨token, asked, decided, resets, sub, entered, unanswered, rfl⟩ :=
    history.accepts history.tidy.frugal accepts
  refine ⟨sub.token, asked, decided, resets, fun held => ?_, fun bare now recent after later
    recently vouches => ?_⟩
  · exact history.complete_of_resumable driven t ⟨sub, entered, held⟩
  · have unvouched : ¬e.stream.Vouches t := by
      rintro (⟨other, there, held⟩ | ⟨⟨-, active⟩, -⟩)
      · obtain rfl := Option.some.inj (entered.symm.trans there)
        exact held bare
      · obtain ⟨other, there, active⟩ := (e.stream.subscriptions.isActive_iff t).mp active
        obtain rfl := Option.some.inj (entered.symm.trans there)
        exact unanswered (beq_iff_eq.mp (Bool.and_eq_true_iff.mp active).2)
    have start {start : Engine} (began : History
        (⟨e, .call (.handle (.watch (.targetAdded ids)) now)⟩ :: past) start) :
        start.Fed (fun _ => False) (fun _ _ => True) t := by
      cases began with
      | step began happening =>
        exact fed_of_activated history.sound history.tidy.frugal accepts.opened accepts.mem
          unvouched
    obtain ⟨v, viewed, all⟩ := (History.fed start later recently).replica vouches
    exact ⟨v, viewed, fun key d there => (all key d there).1.resolve_left id⟩

/-- Target 1 is listened to and completed, the stream is lost, and the next one opens. -/
def reopened : List Action :=
  [.listen (.document ⟨"c/a"⟩), .connect, .handle .opened .zero,
    .handle (.watch (.targetAdded [⟨1⟩])) .zero, .handle (.watch (.current ⟨1⟩ ⟨[]⟩)) .zero,
    .handle (.watch (.snapshot ⟨1⟩)) .zero, .handle (.closed none) .zero, .connect,
    .handle .opened .zero]

/-- On the new stream the target is resumed, and its replica is complete. -/
theorem resumed_after_closing :
    let e := blank.run reopened
    ∃ past, History past e ∧ Driven past ∧ e.Complete ⟨1⟩ ∧ ∃ reset middle token,
      e.stream.Accepts [⟨1⟩] ⟨1⟩ reset middle ∧ lastAdd ⟨1⟩ past = some (some token) ∧
        reset = false ∧ ⟨1⟩ ∉ middle.collected.resets := by
  intro e
  have history := history_blank.run reopened
  have driven : Driven (blank.moments reopened ++ []) := driven_moments blank (by simp [reopened])
  have opened : e.stream.state = .opened := by decide +kernel
  have awaited : (e.stream.subscriptions.table[(⟨1⟩ : TargetId)]?.any fun sub =>
      sub.adds == 1 && sub.listening && sub.token.isSome) = true := by decide +kernel
  obtain ⟨sub, entered, both⟩ := (Option.any_eq_true _ _).mp awaited
  simp only [Bool.and_eq_true, beq_iff_eq] at both
  obtain ⟨⟨one, heard⟩, held⟩ := both
  obtain ⟨middle, accepts⟩ := WatchStream.accepts_of_awaited opened entered one heard
  obtain ⟨complete, decides⟩ := tokens_stand_for_replicas history driven
  obtain ⟨token, asked, decided, resets, resumed, -⟩ := decides [⟨1⟩] ⟨1⟩ _ middle accepts
  have unreset : sub.token.isNone = false := by rw [Option.isNone_eq_false_iff, held]
  rw [unreset] at accepts decided
  cases token with
  | none => cases decided
  | some token =>
    exact ⟨_, history, driven, resumed nofun, false, middle, token, accepts, asked, rfl,
      fun reset => nomatch resets.mp reset⟩

end Engine

end LiveQuery
