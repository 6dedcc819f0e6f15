import LiveQuery.Proofs.Registries
import LiveQuery.Proofs.RepeatedOpenings
import LiveQuery.Proofs.StreamNeeds
import LiveQuery.Proofs.SubscriptionRecords
import LiveQuery.Proofs.WritePipeline

/-!
# The range of the numbers

Targets, listeners and batches are numbered by natural numbers, and so nothing that is said of
an engine depends on the width of a number. With numbers of 32 bits for targets and of 64 bits
for listeners and batches all of it holds as long as these do not overflow.

They do not for a long time. A number is used up by a call to listen, which takes one for its
listener and may take one for its target, and by a call to submit, which takes one for its
batch even if that cannot be stored. No other call uses up any, however often streams come and
go and whatever the server says. What a subscription counts is bounded by the calls to listen.
-/

namespace LiveQuery

open Std

/-- A call that listens to a target. -/
def Engine.Action.isListen : Engine.Action → Bool
  | .listen _ => true
  | _ => false

namespace Happening

def isListen : Happening → Bool
  | .call action => action.isListen
  | _ => false

def isSubmit : Happening → Bool
  | .call action => action.isSubmit
  | _ => false

end Happening

/-! ## Targets and listeners -/

namespace ServerSide

/-- Spends s used after: the server's side went on by calls on its stream, as many of them to listen
    as it used up numbers of listeners. -/
structure Spends (s : ServerSide) (used : Nat) (after : ServerSide) : Prop where
  stream : ∃ calls : List StreamCall,
    after.stream = s.stream.run calls ∧ calls.countP (·.isListen) = used
  nextListener : after.nextListener = s.nextListener + used

section Spends

variable {s after : ServerSide}

theorem Spends.of_same (stream : after.stream = s.stream)
    (nextListener : after.nextListener = s.nextListener) : s.Spends 0 after :=
  ⟨⟨[], stream, rfl⟩, nextListener⟩

theorem Spends.of_call (call : StreamCall) (quiet : call.isListen = false)
    (stream : after.stream = s.stream.perform call)
    (nextListener : after.nextListener = s.nextListener) : s.Spends 0 after :=
  ⟨⟨[call], stream, by rw [List.countP_singleton, quiet]; rfl⟩, nextListener⟩

theorem nextListener_rejectTargets (rejections : List Rejection) (s : ServerSide) :
    (s.rejectTargets rejections).nextListener = s.nextListener := by
  unfold rejectTargets
  induction rejections generalizing s with
  | nil => rfl
  | cons r rest ih => exact ih (s.rejectTarget r)

/-- A report is one call on the stream, and one that does not fit starts the stream anew. -/
theorem spends_receive (s : ServerSide) (change : WatchChange) :
    s.Spends 0 (s.receive change) := by
  have restarted : s.stream.run [.receive change, .restart] =
      (s.stream.receive change).1.restart := rfl
  unfold receive follow
  split
  case isTrue => exact .of_same rfl rfl
  case isFalse =>
    split
    case h_1 => exact .of_call (.receive change) rfl rfl rfl
    case h_2 =>
      split
      case isTrue => exact ⟨⟨_, restarted.symm, rfl⟩, rfl⟩
      case isFalse => exact .of_call (.receive change) rfl rfl rfl
    case h_3 rejections _ =>
      let taken : ServerSide := { s with stream := (s.stream.receive change).1 }
      exact .of_call (.receive change) rfl (frame_rejectTargets rejections taken).1
        (nextListener_rejectTargets rejections taken)
    case h_4 => exact ⟨⟨_, restarted.symm, rfl⟩, rfl⟩

theorem spends_unlisten (s : ServerSide) (x : ListenerId) : s.Spends 0 (s.unlisten x) := by
  unfold unlisten
  split
  case h_1 => exact .of_same rfl rfl
  case h_2 id _ =>
    dsimp only
    split
    case isTrue => exact .of_call (.unlisten id) rfl rfl rfl
    case isFalse => exact .of_same rfl rfl

theorem spends_disconnect (s : ServerSide) : s.Spends 0 s.disconnect := by
  unfold disconnect
  split
  case isTrue => exact .of_call .disconnect rfl rfl rfl
  case isFalse => exact .of_same rfl rfl

/-- Whatever is called, numbers are used up by listening alone. -/
theorem spends_perform (s : ServerSide) (stored : Target → Replica) (action : Engine.Action) :
    s.Spends (if action.isListen then 1 else 0) (s.perform stored action) := by
  cases action with
  | connect => exact .of_call .connect rfl rfl rfl
  | handle event now =>
    cases event with
    | opened => exact .of_call (.opened now) rfl rfl rfl
    | watch change => exact s.spends_receive change
    | writeAcked | writeRejected => exact .of_same rfl rfl
    | closed error =>
      let ended : ServerSide := { s with stream := (s.stream.closed error now).2 }
      exact .of_call (.closed error now) rfl (frame_rejectTargets _ ended).1
        (nextListener_rejectTargets _ ended)
  | listen target => exact ⟨⟨[.listen target], rfl, rfl⟩, rfl⟩
  | unlisten x => exact s.spends_unlisten x
  | submit | resume | takeRestart => exact .of_same rfl rfl
  | takeOutbound => exact .of_call .takeOutbox rfl rfl rfl
  | applyRemote event =>
    change s.Spends 0 (s.applyRemote event)
    unfold applyRemote
    split <;> exact .of_same rfl rfl
  | interrupt =>
    change s.Spends 0 s.interrupt
    unfold interrupt
    split
    case isTrue =>
      obtain ⟨stream, nextListener⟩ := spends_disconnect { s with enabled := false }
      exact ⟨stream, nextListener⟩
    case isFalse => exact .of_same rfl rfl
  | disconnect => exact s.spends_disconnect
  | resync => exact .of_call .restart rfl rfl rfl

end Spends

end ServerSide

/-! ## Batches -/

/-- A call that queues a batch. -/
def QueueCall.isAppend : QueueCall → Bool
  | .append _ => true
  | _ => false

namespace WriteQueue

/-- The next number follows the greatest one of the restored batches, or is the first one. -/
theorem nextId_ofBatches_le {batches : List MutationBatch} {bound : Nat} (first : 1 ≤ bound)
    (below : ∀ w ∈ (ofBatches batches).entries, w.batch.id.val < bound) :
    (ofBatches batches).nextId ≤ bound := by
  change ((batches.map fun b => b.id.val + 1).max?).getD 1 ≤ bound
  cases largest : (batches.map fun b => b.id.val + 1).max? with
  | none => exact first
  | some top =>
    obtain ⟨b, restored, rfl⟩ := List.mem_map.mp (List.max?_mem largest)
    have sorted : b ∈ sortBy (fun a b => decide (a.id.val ≤ b.id.val)) batches :=
      (perm_sortBy _ batches).mem_iff.mpr restored
    exact below ⟨b, .pending, false⟩ (List.mem_map_of_mem sorted)

end WriteQueue

namespace Span

/-- In a span only a new batch uses up a number. -/
theorem nextId_step (limit : Nat) (s : Span) (call : QueueCall) :
    (s.step limit call).queue.nextId = s.queue.nextId + if call.isAppend then 1 else 0 := by
  have settled (found : Option (MutationBatch × WriteQueue))
      (decides : ∀ batch queue, found = some (batch, queue) → s.queue.Decides batch queue) :
      (s.settle found).queue.nextId = s.queue.nextId := by
    cases done : found with
    | none => rfl
    | some answer => exact (decides answer.1 answer.2 done).nextId
  cases call with
  | append | release | takeUnsent => rfl
  | acknowledge id commit =>
    exact settled _ fun _ _ done => WriteQueue.decides_acknowledge done
  | reject id => exact settled _ fun _ _ done => WriteQueue.decides_reject done

/-- So the numbers of a queue last for as many batches as they leave room for. -/
theorem nextId_run (limit : Nat) (s : Span) (calls : List QueueCall) :
    (s.run limit calls).queue.nextId = s.queue.nextId + calls.countP (·.isAppend) := by
  induction calls generalizing s with
  | nil => rfl
  | cons call rest ih =>
    refine (ih (s.step limit call)).trans ?_
    rw [nextId_step, List.countP_cons, Nat.add_assoc, Nat.add_comm (rest.countP _)]

end Span

namespace Engine

/-! ## Runs of an engine -/

/-- Used first listens submits e: the numbers that are used up after so many calls to listen and to
    submit, if `first` was the number of the first batch. -/
structure Used (first listens submits : Nat) (e : Engine) : Prop where
  recorded : e.stream.Recorded listens
  listener : e.nextListener = listens + 1
  batch : e.queue.nextId = first + submits

section Used

variable {e : Engine} {first listens submits : Nat}

theorem used_ofStore {config : Config} {store : Store} (read : ofStore config store = .ok e) :
    e.Used e.queue.nextId 0 0 := by
  obtain ⟨pending, rfl⟩ := ofStore_eq read
  exact ⟨WatchStream.recorded_ofConfig config.backoff, rfl, rfl⟩

theorem Used.meet (used : e.Used first listens submits) (numbered : e.queue.Numbered)
    (happening : Happening) :
    (e.meet happening).Used first (listens + if happening.isListen then 1 else 0)
      (submits + if happening.isSubmit then 1 else 0) := by
  cases happening with
  | call action =>
    have spends := ServerSide.spends_perform e.serverSide e.storedServer action
    rw [← e.serverSide_perform] at spends
    obtain ⟨⟨calls, stream, counted⟩, listener⟩ := spends
    have stream : (e.meet (.call action)).stream = e.stream.run calls := stream
    refine ⟨?_, ?_, ?_⟩
    · have recorded := used.recorded.run calls
      rw [counted, ← stream] at recorded
      exact recorded
    · rw [Nat.add_right_comm, ← used.listener]
      exact listener
    · rw [← Nat.add_assoc, ← used.batch]
      exact nextId_perform numbered action
  | detach | restock => exact ⟨used.recorded, used.listener, used.batch⟩

theorem Used.meetAll (used : e.Used first listens submits) (reached : e.Reachable)
    (happenings : List Happening) :
    (e.meetAll happenings).Used first (listens + happenings.countP (·.isListen))
      (submits + happenings.countP (·.isSubmit)) := by
  induction happenings generalizing e listens submits with
  | nil => exact used
  | cons happening rest ih =>
    have after := ih (used.meet reached.settled.numbered happening) (reached.meetAll [happening])
    rw [List.countP_cons, List.countP_cons, Nat.add_comm (rest.countP _),
      Nat.add_comm (rest.countP _), ← Nat.add_assoc, ← Nat.add_assoc]
    exact after

end Used

/-- Every number in use and the next one of each kind fit: 32 bits are for targets and for what
    subscriptions count, and 64 bits for listeners and batches. -/
structure Fits (e : Engine) : Prop where
  nextTarget : e.stream.subscriptions.nextId < 2 ^ 32
  target : ∀ (id : TargetId) sub, e.stream.subscriptions.table[id]? = some sub →
    id.val < 2 ^ 32 ∧ sub.adds < 2 ^ 32 ∧ sub.removes < 2 ^ 32
  nextListener : e.nextListener < 2 ^ 64
  listener : ∀ (x : ListenerId) l, e.listeners[x]? = some l → x.val < 2 ^ 64
  nextBatch : e.queue.nextId < 2 ^ 64
  batch : ∀ w ∈ e.queue.entries, w.batch.id.val < 2 ^ 64

/-- No number overflows in an engine that is called to listen less than 2 ^ 32 - 1 times, and to
    submit less than 2 ^ 64 - 1 times and no more often than the numbers of the batches that it
    found leave room for. -/
theorem numbers_fit {config : Config} {store : Store} {e : Engine}
    (read : ofStore config store = .ok e) {happenings : List Happening}
    (listens : happenings.countP (·.isListen) + 1 < 2 ^ 32)
    (submits : happenings.countP (·.isSubmit) + 1 < 2 ^ 64)
    (room : ∀ w ∈ e.queue.entries,
      w.batch.id.val + happenings.countP (·.isSubmit) + 1 < 2 ^ 64) :
    ∀ early, early <+: happenings → (e.meetAll early).Fits := by
  intro early front
  have fewer : early.countP (·.isListen) ≤ happenings.countP (·.isListen) :=
    front.sublist.countP_le
  have fewer' : early.countP (·.isSubmit) ≤ happenings.countP (·.isSubmit) :=
    front.sublist.countP_le
  have reached : e.Reachable := .start read
  have settled := (reached.meetAll early).settled
  have first : e.queue.nextId ≤ 2 ^ 64 - 1 - happenings.countP (·.isSubmit) := by
    obtain ⟨pending, rfl⟩ := ofStore_eq read
    refine WriteQueue.nextId_ofBatches_le (by omega) fun w queued => ?_
    have below := room w queued
    omega
  obtain ⟨recorded, listener, batch⟩ := (used_ofStore read).meetAll reached early
  have given := recorded.regular.nextId
  refine ⟨by omega, fun id sub entered => ?_, by omega, fun x l entered => ?_, by omega,
    fun w queued => ?_⟩
  · have below := (recorded.sound.numbered id sub entered).2
    have entry := recorded.regular.entry id sub entered
    exact ⟨by omega, Nat.lt_of_le_of_lt entry.adds (by omega),
      Nat.lt_of_le_of_lt entry.removes (by omega)⟩
  · by_contra beyond
    have past : (e.meetAll early).nextListener ≤ x.val := by omega
    cases (settled.informed.unentered past).symm.trans entered
  · have below := settled.numbered w queued
    omega

end Engine

end LiveQuery
