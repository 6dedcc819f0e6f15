import LiveQuery.Proofs.Registries
import LiveQuery.Proofs.RepeatedOpenings
import LiveQuery.Proofs.WriteLedger

/-!
# How long writes are kept

An acknowledged batch is kept until a snapshot has reached its commit. Batches are
let go in two places, by the version of a snapshot that is applied and, after an
acknowledgement, by the latest one so far. Snapshots may come in any order of
versions; a late one has nothing left to let go, because the latest has been there
before it. So a batch is in the queue as acknowledged exactly if it was
acknowledged at a commit past all snapshots, and nothing but a rejection or such
a snapshot takes a batch away.

The log of a history lists what the engine learned of its writes. The backlog is
what the queue and the latest snapshot make of that: each piece of news is one step
of it, and everything else that befalls an engine leaves it alone.
-/

namespace LiveQuery

open Std

/-- What an engine learns of its writes. -/
inductive WriteNews where
  /-- A batch is queued. -/
  | accepted (batch : MutationBatch)
  /-- The batch was waited for, and the server has committed it. -/
  | committed (batch : MutationBatch) (commit : Version)
  /-- The batch was waited for, and the server has refused it. -/
  | rejected (batch : MutationBatch)
  /-- A snapshot is applied. -/
  | snapshot (version : Version)

/-- The highest version of a snapshot in a log. -/
def highestSnapshot : List WriteNews → Version
  | [] => .start
  | .snapshot version :: earlier => (highestSnapshot earlier).later version
  | _ :: earlier => highestSnapshot earlier

/-- Whether a version leaves the batch in the queue: it is not decided, or its commit is later. -/
def WriteStatus.outlasts (status : WriteStatus) (version : Version) : Bool :=
  match status with
  | .pending => true
  | .acknowledged commit => decide (version < commit)

theorem QueuedWrite.not_isCaughtUpBy (w : QueuedWrite) (version : Version) :
    (!w.isCaughtUpBy version) = w.status.outlasts version := by
  obtain ⟨batch, _ | commit, sent⟩ := w
  · rfl
  · exact decide_not.symm.trans (decide_eq_decide.mpr Nat.not_le)

/-- A batch with what the server has said about it. -/
def QueuedWrite.standing (w : QueuedWrite) : MutationBatch × WriteStatus := (w.batch, w.status)

/-- An awaited batch is not decided. -/
theorem QueuedWrite.standing_of_awaits {w : QueuedWrite} {id : BatchId}
    (awaited : w.awaits id = true) : w.standing = (w.batch, .pending) := by
  have undecided := (WriteQueue.isPending_of_awaits awaited).2
  rw [standing, eq_of_beq undecided]

/-- The queued batches, oldest first. -/
def WriteQueue.writes (q : WriteQueue) : List (MutationBatch × WriteStatus) :=
  q.entries.map (·.standing)

/-- The place of an awaited batch. -/
theorem WriteQueue.writes_awaited {q : WriteQueue} {before rest : List QueuedWrite}
    {w : QueuedWrite} {id : BatchId} (split : q.entries = before ++ w :: rest)
    (awaited : w.awaits id = true) :
    q.writes = before.map (·.standing) ++ (w.batch, .pending) :: rest.map (·.standing) := by
  rw [writes, split, List.map_append, List.map_cons, QueuedWrite.standing_of_awaits awaited]

/-- What a version leaves of a queue. -/
theorem WriteQueue.writes_release (q : WriteQueue) (version : Version) :
    (q.release version).2.writes = q.writes.filter (·.2.outlasts version) := by
  have left : (q.entries.filter fun w => !w.isCaughtUpBy version) =
      q.entries.filter fun w => w.status.outlasts version :=
    List.filter_congr fun w _ => w.not_isCaughtUpBy version
  rw [writes, writes, List.filter_map, release, left]
  rfl

namespace Version

theorem later_lt {a b c : Version} : a.later b < c ↔ a < c ∧ b < c := Nat.max_lt

theorem le_later_left (a b : Version) : a ≤ a.later b := Nat.le_max_left ..

theorem le_later_right (a b : Version) : b ≤ a.later b := Nat.le_max_right ..

end Version

/-- The queued batches, each with what the server said about it, and the latest snapshot. -/
structure Backlog where
  writes : List (MutationBatch × WriteStatus)
  latest : Version

namespace Backlog

/-- The batches that a version leaves. -/
def release (b : Backlog) (version : Version) : Backlog :=
  { b with writes := b.writes.filter (·.2.outlasts version) }

/-- A snapshot comes. -/
def catchUp (b : Backlog) (version : Version) : Backlog :=
  { b.release version with latest := b.latest.later version }

/-- Step b news after: what a piece of news makes of the backlog. -/
inductive Step (b : Backlog) : Option WriteNews → Backlog → Prop
  | quiet : Step b none b
  | accept (batch : MutationBatch) :
    Step b (some (.accepted batch)) { b with writes := b.writes ++ [(batch, .pending)] }
  | commit {before rest : List (MutationBatch × WriteStatus)} {batch : MutationBatch}
    (commit : Version) (awaited : b.writes = before ++ (batch, .pending) :: rest) :
    Step b (some (.committed batch commit))
      (release { b with writes := before ++ (batch, .acknowledged commit) :: rest } b.latest)
  | reject {before rest : List (MutationBatch × WriteStatus)} {batch : MutationBatch}
    (awaited : b.writes = before ++ (batch, .pending) :: rest) :
    Step b (some (.rejected batch)) { b with writes := before ++ rest }
  | snapshot (version : Version) : Step b (some (.snapshot version)) (b.catchUp version)

theorem Step.of_same {b after : Backlog} (same : after = b) : b.Step none after := same ▸ .quiet

/-- The log says why a batch is missing: it was rejected, or committed at a version that a snapshot
    has reached. -/
def Excused (log : List WriteNews) (latest : Version) (batch : MutationBatch) : Prop :=
  .rejected batch ∈ log ∨ ∃ commit, .committed batch commit ∈ log ∧ commit ≤ latest

/-- An excuse is good for ever. -/
theorem Excused.later {log : List WriteNews} {latest next : Version} {batch : MutationBatch}
    (excused : Excused log latest batch) (news : WriteNews) (later : latest ≤ next) :
    Excused (news :: log) next batch := by
  rcases excused with rejected | ⟨commit, committed, reached⟩
  · exact .inl (List.mem_cons_of_mem news rejected)
  · exact .inr ⟨commit, List.mem_cons_of_mem news committed, Nat.le_trans reached later⟩

/-- AccountedBy restored log b: the log accounts for the backlog of an engine that began with the
    restored batches. -/
structure AccountedBy (restored : List MutationBatch) (log : List WriteNews) (b : Backlog) :
    Prop where
  latest : b.latest = highestSnapshot log
  /-- A batch is kept as acknowledged exactly if its commit is past every snapshot. -/
  acknowledged : ∀ batch commit, (batch, .acknowledged commit) ∈ b.writes ↔
    .committed batch commit ∈ log ∧ b.latest < commit
  /-- No batch is missing without an excuse. -/
  complete : ∀ batch, batch ∈ restored ∨ .accepted batch ∈ log →
    (∃ status, (batch, status) ∈ b.writes) ∨ Excused log b.latest batch

namespace AccountedBy

variable {restored : List MutationBatch} {log : List WriteNews} {b after : Backlog}

/-- Nothing that is queued is caught up with. -/
theorem outlasts (accounted : b.AccountedBy restored log) {write : MutationBatch × WriteStatus}
    (queued : write ∈ b.writes) : write.2.outlasts b.latest = true := by
  obtain ⟨batch, _ | commit⟩ := write
  · rfl
  · exact decide_eq_true ((accounted.acknowledged batch commit).mp queued).2

/-- Without a new batch it is enough to know what becomes of those that are queued. -/
theorem complete_after (accounted : b.AccountedBy restored log) {news : WriteNews}
    (nothing_new : ∀ batch, news ≠ .accepted batch) (later : b.latest ≤ after.latest)
    (queued : ∀ batch status, (batch, status) ∈ b.writes →
      (∃ status, (batch, status) ∈ after.writes) ∨ Excused (news :: log) after.latest batch)
    (batch : MutationBatch) (known : batch ∈ restored ∨ .accepted batch ∈ news :: log) :
    (∃ status, (batch, status) ∈ after.writes) ∨ Excused (news :: log) after.latest batch := by
  have old : batch ∈ restored ∨ .accepted batch ∈ log :=
    known.imp_right fun listed => (List.mem_cons.mp listed).resolve_left (nothing_new batch).symm
  rcases accounted.complete batch old with ⟨status, there⟩ | excused
  · exact queued batch status there
  · exact .inr (excused.later news later)

theorem accept (accounted : b.AccountedBy restored log) (batch : MutationBatch) :
    AccountedBy restored (.accepted batch :: log)
      { b with writes := b.writes ++ [(batch, .pending)] } where
  latest := accounted.latest
  acknowledged other commit := by simpa using accounted.acknowledged other commit
  complete other known := by
    by_cases new : other = batch
    · exact .inl ⟨.pending, by simp [new]⟩
    · have old : other ∈ restored ∨ .accepted other ∈ log := by simpa [new] using known
      refine (accounted.complete other old).imp ?_ (·.later _ (Nat.le_refl _))
      exact fun ⟨status, queued⟩ => ⟨status, List.mem_append_left _ queued⟩

/-- The committed batch stays unless a snapshot has been there before the acknowledgement; the
    others stay in any case, as the latest snapshot left them. -/
theorem commit (accounted : b.AccountedBy restored log)
    {before rest : List (MutationBatch × WriteStatus)} {batch : MutationBatch} (commit : Version)
    (awaited : b.writes = before ++ (batch, .pending) :: rest) :
    AccountedBy restored (.committed batch commit :: log)
      (release { b with writes := before ++ (batch, .acknowledged commit) :: rest } b.latest) where
  latest := accounted.latest
  acknowledged other next := by
    have old := accounted.acknowledged other next
    simp only [awaited, List.mem_append, List.mem_cons, Prod.mk.injEq, reduceCtorEq, and_false,
      false_or] at old
    simp only [release, List.mem_filter, List.mem_append, List.mem_cons, Prod.mk.injEq,
      WriteStatus.acknowledged.injEq, WriteStatus.outlasts, decide_eq_true_eq,
      WriteNews.committed.injEq]
    tauto
  complete := by
    refine accounted.complete_after nofun (Nat.le_refl _) fun other status queued => ?_
    have stays (elsewhere : (other, status) ∈ before ∨ (other, status) ∈ rest) :
        (other, status) ∈ (before ++ (batch, .acknowledged commit) :: rest).filter
          (·.2.outlasts b.latest) := by
      refine List.mem_filter.mpr ⟨List.mem_append.mpr ?_, accounted.outlasts queued⟩
      exact elsewhere.imp_right (List.mem_cons_of_mem _)
    rw [awaited, List.mem_append, List.mem_cons] at queued
    rcases queued with early | here | late
    · exact .inl ⟨status, stays (.inl early)⟩
    · obtain ⟨rfl, -⟩ := Prod.mk.inj here
      by_cases past : b.latest < commit
      · exact .inl ⟨.acknowledged commit, List.mem_filter.mpr
          ⟨List.mem_append_right _ List.mem_cons_self, decide_eq_true past⟩⟩
      · exact .inr (.inr ⟨commit, List.mem_cons_self, Nat.le_of_not_lt past⟩)
    · exact .inl ⟨status, stays (.inr late)⟩

theorem reject (accounted : b.AccountedBy restored log)
    {before rest : List (MutationBatch × WriteStatus)} {batch : MutationBatch}
    (awaited : b.writes = before ++ (batch, .pending) :: rest) :
    AccountedBy restored (.rejected batch :: log) { b with writes := before ++ rest } where
  latest := accounted.latest
  acknowledged other commit := by
    simpa [awaited] using accounted.acknowledged other commit
  complete := by
    refine accounted.complete_after nofun (Nat.le_refl _) fun other status queued => ?_
    rw [awaited, List.mem_append, List.mem_cons] at queued
    rcases queued with early | here | late
    · exact .inl ⟨status, List.mem_append_left _ early⟩
    · obtain ⟨rfl, -⟩ := Prod.mk.inj here
      exact .inr (.inl List.mem_cons_self)
    · exact .inl ⟨status, List.mem_append_right _ late⟩

/-- Only batches that the snapshot itself has reached go. Those that an earlier one with a higher
    version has reached are gone already. -/
theorem catchUp (accounted : b.AccountedBy restored log) (version : Version) :
    AccountedBy restored (.snapshot version :: log) (b.catchUp version) where
  latest := congrArg (·.later version) accounted.latest
  acknowledged batch commit := by
    have old := accounted.acknowledged batch commit
    simp only [Backlog.catchUp, release, List.mem_filter, WriteStatus.outlasts, decide_eq_true_eq,
      List.mem_cons, reduceCtorEq, false_or, Version.later_lt, old, and_assoc]
  complete := by
    refine accounted.complete_after nofun (Version.le_later_left ..) fun batch status queued => ?_
    cases stays : status.outlasts version with
    | true => exact .inl ⟨status, List.mem_filter.mpr ⟨queued, stays⟩⟩
    | false =>
      cases status with
      | pending => cases stays
      | acknowledged commit =>
        have committed := ((accounted.acknowledged batch commit).mp queued).1
        have reached : commit ≤ version := Nat.le_of_not_lt (of_decide_eq_false stays)
        exact .inr (.inr ⟨commit, List.mem_cons_of_mem _ committed,
          Nat.le_trans reached (Version.le_later_right ..)⟩)

/-- The log goes on accounting for the backlog if each step adds its piece of news. -/
theorem step (accounted : b.AccountedBy restored log) {news : Option WriteNews}
    (step : b.Step news after) : after.AccountedBy restored (news.toList ++ log) := by
  cases step with
  | quiet => exact accounted
  | accept batch => exact accounted.accept batch
  | commit commit awaited => exact accounted.commit commit awaited
  | reject awaited => exact accounted.reject awaited
  | snapshot version => exact accounted.catchUp version

end AccountedBy

end Backlog

namespace ServerSide

/-- Rejected targets have nothing to do with snapshots. -/
theorem lastSnapshot_rejectTargets (s : ServerSide) (rejections : List Rejection) :
    (s.rejectTargets rejections).lastSnapshot = s.lastSnapshot := by
  unfold rejectTargets
  induction rejections generalizing s with
  | nil => rfl
  | cons r rest ih => exact ih (s.rejectTarget r)

/-- Of the reports only a snapshot moves the latest one. -/
theorem lastSnapshot_receive {s : ServerSide} (sound : s.stream.Sound) {change : WatchChange}
    (unclosed : ¬change.Closes) : (s.receive change).lastSnapshot = s.lastSnapshot := by
  unfold receive
  split
  case isTrue => rfl
  case isFalse unopened =>
    unfold follow
    split
    case h_1 => rfl
    case h_2 event done =>
      exact absurd (WatchStream.closes_of_snapshot sound (not_not.mp unopened) done) unclosed
    case h_3 rejections _ => exact lastSnapshot_rejectTargets _ rejections
    case h_4 => rfl

theorem lastSnapshot_unlisten (s : ServerSide) (x : ListenerId) :
    (s.unlisten x).lastSnapshot = s.lastSnapshot := by
  unfold unlisten
  split
  case h_1 => rfl
  case h_2 => dsimp only; split <;> rfl

theorem lastSnapshot_disconnect (s : ServerSide) :
    s.disconnect.lastSnapshot = s.lastSnapshot := by
  unfold disconnect
  split <;> rfl

theorem lastSnapshot_interrupt (s : ServerSide) : s.interrupt.lastSnapshot = s.lastSnapshot := by
  unfold interrupt
  split
  · exact lastSnapshot_disconnect _
  · rfl

end ServerSide

namespace Engine

/-- The queued batches and the latest snapshot. -/
def backlog (e : Engine) : Backlog := ⟨e.queue.writes, e.lastSnapshot⟩

/-- What a call tells of the writes. -/
def Action.news? (e : Engine) : Action → Option WriteNews
  | .submit mutations => (e.submit mutations).2.toOption.map fun id => .accepted ⟨id, mutations⟩
  | .handle (.writeAcked id commit) _ =>
    (e.queue.acknowledge? id commit).map fun (batch, _) => .committed batch commit
  | .handle (.writeRejected id _) _ => (e.queue.reject? id).map fun (batch, _) => .rejected batch
  | .handle (.watch (.snapshot version)) _ =>
    if e.stream.state = .opened then some (.snapshot version) else none
  | .applyRemote event => (e.applyRemote event).toOption.map fun _ => .snapshot event.version
  | _ => none

section Backlog

variable {e after : Engine}

/-- What a call that applies no snapshot makes of the backlog. -/
theorem backlog_eq (latest : after.lastSnapshot = e.lastSnapshot) :
    after.backlog = { e.backlog with writes := after.queue.writes } := by
  rw [backlog, latest]
  rfl

theorem backlog_congr (writes : after.queue.writes = e.queue.writes)
    (latest : after.lastSnapshot = e.lastSnapshot) : after.backlog = e.backlog := by
  rw [backlog_eq latest, writes]
  rfl

theorem backlog_applyRemote {event : RemoteEvent} (applied : e.applyRemote event = .ok after) :
    after.backlog = e.backlog.catchUp event.version := by
  rw [backlog, queue_applyRemote applied, lastSnapshot_applyRemote applied,
    WriteQueue.writes_release]
  rfl

/-- A batch that the store cannot hold is taken back, and is no news. -/
theorem backlog_submit (numbered : e.queue.Numbered) (mutations : List Mutation) :
    e.backlog.Step (Action.news? e (.submit mutations)) (e.submit mutations).1.backlog := by
  have latest : (e.submit mutations).1.lastSnapshot = e.lastSnapshot :=
    congrArg ServerSide.lastSnapshot (e.serverSide_submit mutations)
  rw [backlog_eq latest]
  unfold Action.news? submit
  dsimp only
  cases e.store.saveWrite (e.queue.append mutations).1 with
  | error fault =>
    dsimp only
    rw [WriteQueue.reject_append numbered mutations]
    exact .quiet
  | ok store =>
    dsimp only
    rw [queue_refresh]
    have appended : (e.queue.append mutations).2.writes =
        e.queue.writes ++ [((e.queue.append mutations).1, .pending)] := List.map_append
    rw [appended]
    exact .accept _

/-- An acknowledgement marks its batch, and then the latest snapshot lets go of what it has reached,
    which can be this batch alone. -/
theorem backlog_acknowledge (e : Engine) (id : BatchId) (commit : Version) (now : Duration) :
    e.backlog.Step (Action.news? e (.handle (.writeAcked id commit) now))
      (e.acknowledge id commit).backlog := by
  have latest : (e.acknowledge id commit).lastSnapshot = e.lastSnapshot :=
    congrArg ServerSide.lastSnapshot (e.serverSide_acknowledge id commit)
  rw [backlog_eq latest]
  unfold Action.news? acknowledge
  dsimp only
  cases done : e.queue.acknowledge? id commit with
  | none => exact .quiet
  | some decided =>
    obtain ⟨batch, queue⟩ := decided
    obtain ⟨before, w, rest, split, -, awaited, rfl, rfl⟩ := WriteQueue.acknowledge_cases done
    let marked : WriteQueue :=
      { e.queue with entries := before ++ { w with status := .acknowledged commit } :: rest }
    let stats := { e.stats with writesAcknowledged := e.stats.writesAcknowledged + 1 }
    let told := Engine.decide { e with queue := marked, stats } id (.acknowledged commit)
    have queue : told.queue = marked := (sameBooks_decide _ id (.acknowledged commit)).queue
    have last : told.lastSnapshot = e.lastSnapshot :=
      congrArg ServerSide.lastSnapshot (serverSide_decide _ id (.acknowledged commit))
    have writes : marked.writes =
        before.map (·.standing) ++ (w.batch, .acknowledged commit) :: rest.map (·.standing) :=
      List.map_append
    dsimp only [Option.map_some]
    rw [queue_refresh]
    change Backlog.Step _ _
      { e.backlog with writes := (told.queue.release told.lastSnapshot).2.writes }
    rw [queue, last, WriteQueue.writes_release, writes]
    exact .commit commit (WriteQueue.writes_awaited split awaited)

/-- A rejection takes its batch away. -/
theorem backlog_reject (e : Engine) (id : BatchId) (status : Status) (now : Duration) :
    e.backlog.Step (Action.news? e (.handle (.writeRejected id status) now))
      (e.reject id status).backlog := by
  have latest : (e.reject id status).lastSnapshot = e.lastSnapshot :=
    congrArg ServerSide.lastSnapshot (e.serverSide_reject id status)
  rw [backlog_eq latest]
  unfold Action.news? reject
  dsimp only
  cases done : e.queue.reject? id with
  | none => exact .quiet
  | some decided =>
    obtain ⟨batch, queue⟩ := decided
    obtain ⟨before, w, rest, split, awaited, rfl, rfl⟩ := WriteQueue.reject_cases done
    dsimp only [Option.map_some]
    rw [queue_refresh, (sameBooks_decide _ id (.rejected status)).queue, WriteQueue.writes,
      List.map_append]
    exact .reject (WriteQueue.writes_awaited split awaited)

/-- Batches that have to be sent again are the same batches. -/
theorem writes_unsent {queue : WriteQueue} (unsent : queue = e.queue.markAllUnsent) :
    queue.writes = e.queue.writes :=
  unsent ▸ e.queue.map_markAllUnsent

/-- Of the reports only a snapshot lets go of batches, -/
theorem writes_receive (sound : e.stream.Sound) {change : WatchChange}
    (unclosed : ¬change.Closes) : (e.receive change).queue.writes = e.queue.writes := by
  by_cases opened : e.stream.state = .opened
  case neg => rw [receive, if_pos opened]
  case pos =>
    let taken : Engine := { e with stream := (e.stream.receive change).1 }
    have resynced : taken.resync.queue.writes = e.queue.writes := writes_unsent (queue_resync taken)
    rw [receive_eq opened]
    split
    case h_1 => rfl
    case h_2 event done => exact absurd (WatchStream.closes_of_snapshot sound opened done) unclosed
    case h_3 rejections _ => exact congrArg WriteQueue.writes (queue_rejectTargets taken rejections)
    case h_4 => exact resynced

/-- and only a snapshot is news. -/
theorem news?_of_unclosed {change : WatchChange} (unclosed : ¬change.Closes) (now : Duration) :
    Action.news? e (.handle (.watch change) now) = none := by
  cases change with
  | snapshot version => exact absurd ⟨version, rfl⟩ unclosed
  | _ => rfl

/-- On an open stream a snapshot is applied: every target that it concerns has its view. -/
theorem receive_applies (registered : e.serverSide.Registered) (sound : e.stream.Sound)
    (opened : e.stream.state = .opened) (version : Version) :
    (e.receive (.snapshot version)).backlog = e.backlog.catchUp version := by
  let flushed : Engine := { e with stream := (e.stream.flush version).2 }
  have tracked : flushed.serverSide.Tracked :=
    registered.toTracked.thinned (WatchStream.thins_flush sound version)
  obtain ⟨after, applied⟩ := applied_of_tracked tracked (e.stream.flush version).1
  have moved : after.backlog = e.backlog.catchUp version := backlog_applyRemote applied
  rw [receive_eq opened, WatchStream.receive_snapshot opened]
  dsimp only
  rw [applied]
  exact moved

/-- A report is one step of the backlog, and a quiet one unless it is a snapshot. -/
theorem backlog_receive (registered : e.serverSide.Registered) (sound : e.stream.Sound)
    (change : WatchChange) (now : Duration) :
    e.backlog.Step (Action.news? e (.handle (.watch change) now))
      (e.receive change).backlog := by
  by_cases closes : change.Closes
  case pos =>
    obtain ⟨version, rfl⟩ := closes
    rw [Action.news?]
    split
    case isTrue opened =>
      rw [receive_applies registered sound opened]
      exact .snapshot version
    case isFalse unopened =>
      rw [receive, if_pos unopened]
      exact .quiet
  case neg =>
    have latest : (e.receive change).lastSnapshot = e.lastSnapshot :=
      (congrArg ServerSide.lastSnapshot (e.serverSide_receive change)).trans
        (ServerSide.lastSnapshot_receive sound closes)
    rw [news?_of_unclosed closes]
    exact .of_same (backlog_congr (writes_receive sound closes) latest)

theorem writes_disconnect (e : Engine) : e.disconnect.queue.writes = e.queue.writes := by
  rcases queue_disconnect e with unsent | same
  · exact writes_unsent unsent
  · exact congrArg WriteQueue.writes same

/-- Every call is one step of the backlog, and tells which one. -/
theorem backlog_perform (registered : e.serverSide.Registered) (sound : e.stream.Sound)
    (numbered : e.queue.Numbered) (action : Action) :
    e.backlog.Step (action.news? e) (e.perform action).2.backlog := by
  have quiet (latest : (e.serverSide.perform e.storedServer action).lastSnapshot = e.lastSnapshot)
      (writes : (e.perform action).2.queue.writes = e.queue.writes) :
      e.backlog.Step none (e.perform action).2.backlog := by
    refine .of_same (backlog_congr writes (Eq.trans ?_ latest))
    exact congrArg ServerSide.lastSnapshot (e.serverSide_perform action)
  cases action with
  | connect =>
    refine quiet rfl ?_
    unfold perform connect?
    cases e.stream.connect? <;> rfl
  | handle event now =>
    cases event with
    | opened => exact quiet rfl (writes_unsent rfl)
    | watch change => exact backlog_receive registered sound change now
    | writeAcked id commit => exact backlog_acknowledge e id commit now
    | writeRejected id status => exact backlog_reject e id status now
    | closed error =>
      refine quiet ?_ (writes_unsent (queue_streamClosed e error now))
      exact ServerSide.lastSnapshot_rejectTargets _ _
  | listen t => exact quiet rfl (congrArg WriteQueue.writes (queue_listen e t))
  | unlisten x =>
    refine quiet (ServerSide.lastSnapshot_unlisten _ x) ?_
    cases left : e.unlisten x with
    | error fault => simp only [perform, left, orRefuse]
    | ok after =>
      simp only [perform, left, orRefuse]
      rw [queue_unlisten left]
  | submit mutations =>
    rw [perform_submit]
    exact backlog_submit numbered mutations
  | takeOutbound =>
    refine quiet rfl ?_
    change e.takeOutbound.2.queue.writes = _
    unfold takeOutbound
    split
    case isTrue => exact WriteQueue.map_takeFrom _ e.queue.entries
    case isFalse => rfl
  | applyRemote event =>
    unfold Action.news?
    cases applied : e.applyRemote event with
    | error fault =>
      simp only [perform, applied, orRefuse]
      exact .quiet
    | ok after =>
      simp only [perform, applied, orRefuse]
      rw [backlog_applyRemote applied]
      exact .snapshot event.version
  | interrupt =>
    refine quiet (ServerSide.lastSnapshot_interrupt _) ?_
    change e.interrupt.queue.writes = _
    unfold interrupt
    split
    case isTrue => exact writes_disconnect _
    case isFalse => rfl
  | resume => exact quiet rfl rfl
  | disconnect => exact quiet (ServerSide.lastSnapshot_disconnect _) (writes_disconnect e)
  | resync => exact quiet rfl (writes_unsent (queue_resync e))
  | takeRestart => exact quiet rfl rfl

end Backlog

end Engine

/-- What a moment tells of the writes. Only a call tells anything. -/
def Moment.news? (m : Moment) : Option WriteNews :=
  match m.happening with
  | .call action => action.news? m.before
  | _ => none

/-- What an engine learned of its writes, the latest first. -/
def newsOf (past : List Moment) : List WriteNews := past.filterMap (·.news?)

theorem newsOf_cons (m : Moment) (past : List Moment) :
    newsOf (m :: past) = m.news?.toList ++ newsOf past := by
  rw [newsOf, List.filterMap_cons]
  cases m.news? <;> rfl

/-- The engine that a history began with. -/
def origin (past : List Moment) (e : Engine) : Engine := past.getLast?.elim e (·.before)

theorem origin_step (past : List Moment) (e : Engine) (happening : Happening) :
    origin (⟨e, happening⟩ :: past) (e.meet happening) = origin past e := by
  cases past with
  | nil => rfl
  | cons m earlier => rfl

/-- A new engine has no snapshot and no decision, and queues what it found. -/
theorem accounted_ofStore {config : Config} {store : Store} {e : Engine}
    (read : Engine.ofStore config store = .ok e) :
    e.backlog.AccountedBy e.queue.pending [] := by
  obtain ⟨pending, rfl⟩ := Engine.ofStore_eq read
  refine ⟨rfl, fun batch commit => ?_, fun batch known => .inl ?_⟩
  · simp [Engine.backlog, WriteQueue.writes, WriteQueue.ofBatches, QueuedWrite.standing]
  · have queued : batch ∈ (WriteQueue.ofBatches pending).pending := by simpa using known
    obtain ⟨w, member, rfl⟩ := List.mem_map.mp queued
    exact ⟨w.status, List.mem_map_of_mem (List.mem_of_mem_filter member)⟩

/-- At any time the log accounts for the backlog. -/
theorem History.accounted {past : List Moment} {e : Engine} (history : History past e) :
    e.backlog.AccountedBy (origin past e).queue.pending (newsOf past) := by
  induction history with
  | start read => exact accounted_ofStore read
  | step before happening ih =>
    rw [origin_step, newsOf_cons]
    refine ih.step ?_
    cases happening with
    | call action =>
      exact Engine.backlog_perform before.registered before.sound
        before.reachable.settled.numbered action
    | detach id => exact .quiet
    | restock store => exact .quiet

namespace Engine

/-- Whatever befalls an engine, and in whatever order of versions its snapshots come: a batch is
    queued as acknowledged exactly if it was acknowledged at a commit past the highest snapshot. And
    of the batches that it found or accepted one is missing only if it was rejected, or acknowledged
    at a commit that the highest snapshot has reached. -/
theorem acknowledged_until_caught_up {past : List Moment} {e : Engine}
    (history : History past e) :
    (∀ batch commit,
      (∃ w ∈ e.queue.entries, w.batch = batch ∧ w.status = .acknowledged commit) ↔
        .committed batch commit ∈ newsOf past ∧ highestSnapshot (newsOf past) < commit) ∧
      ∀ batch, batch ∈ (origin past e).queue.pending ∨ .accepted batch ∈ newsOf past →
        (∀ w ∈ e.queue.entries, w.batch ≠ batch) →
        .rejected batch ∈ newsOf past ∨ ∃ commit, .committed batch commit ∈ newsOf past ∧
          commit ≤ highestSnapshot (newsOf past) := by
  obtain ⟨latest, acknowledged, complete⟩ := history.accounted
  rw [latest] at acknowledged complete
  have queued (batch : MutationBatch) (status : WriteStatus) :
      (batch, status) ∈ e.backlog.writes ↔
        ∃ w ∈ e.queue.entries, w.batch = batch ∧ w.status = status := by
    simp [backlog, WriteQueue.writes, QueuedWrite.standing]
  refine ⟨fun batch commit => ?_, fun batch known missing => ?_⟩
  · rw [← queued, acknowledged]
  · refine (complete batch known).resolve_left ?_
    rintro ⟨status, there⟩
    obtain ⟨w, member, own, -⟩ := (queued batch status).mp there
    exact missing w member own

/-- Three deletions are submitted. After a snapshot the server commits the first one past it and
    the second one before it, and refuses the third one; then an older snapshot comes, and the
    stream ends and is started over. -/
def keepingCalls : List Action := [
  .submit [.delete ⟨"c/a"⟩], .submit [.delete ⟨"c/b"⟩], .submit [.delete ⟨"c/c"⟩],
  .connect, .handle .opened .zero, .handle (.watch (.snapshot ⟨5⟩)) .zero,
  .handle (.writeAcked ⟨1⟩ ⟨7⟩) .zero, .handle (.writeAcked ⟨2⟩ ⟨4⟩) .zero,
  .handle (.watch (.snapshot ⟨3⟩)) .zero,
  .handle (.writeRejected ⟨3⟩ ⟨.unavailable, "full"⟩) .zero, .handle (.closed none) .zero, .resync]

/-- The first batch is kept and the others are missing, each with its excuse. -/
theorem committed_later_is_kept :
    let past := blank.moments keepingCalls
    let e := blank.run keepingCalls
    let first : MutationBatch := ⟨⟨1⟩, [.delete ⟨"c/a"⟩]⟩
    let second : MutationBatch := ⟨⟨2⟩, [.delete ⟨"c/b"⟩]⟩
    History past e ∧ highestSnapshot (newsOf past) = ⟨5⟩ ∧
      (∃ w ∈ e.queue.entries, w.batch = first ∧ w.status = .acknowledged ⟨7⟩) ∧
      .accepted second ∈ newsOf past ∧ (∀ w ∈ e.queue.entries, w.batch ≠ second) ∧
      (.rejected second ∈ newsOf past ∨
        ∃ commit, .committed second commit ∈ newsOf past ∧ commit ≤ ⟨5⟩) := by
  intro past e first second
  have history : History past e := by
    have run := history_blank.run keepingCalls
    rwa [List.append_nil] at run
  have log : newsOf past = [
      .rejected ⟨⟨3⟩, [.delete ⟨"c/c"⟩]⟩, .snapshot ⟨3⟩, .committed second ⟨4⟩,
      .committed first ⟨7⟩, .snapshot ⟨5⟩, .accepted ⟨⟨3⟩, [.delete ⟨"c/c"⟩]⟩,
      .accepted second, .accepted first] := rfl
  have highest_is : highestSnapshot (newsOf past) = ⟨5⟩ := log ▸ rfl
  have queue : e.queue.entries = [{ batch := first, status := .acknowledged ⟨7⟩ }] := rfl
  have accepted : .accepted second ∈ newsOf past := by simp [log]
  have missing : ∀ w ∈ e.queue.entries, w.batch ≠ second := by simp [queue, first, second]
  obtain ⟨kept, excused⟩ := acknowledged_until_caught_up history
  refine ⟨history, highest_is, (kept first ⟨7⟩).mpr ⟨by simp [log], ?_⟩, accepted, missing, ?_⟩
  · rw [highest_is]
    decide
  · exact highest_is ▸ excused second (.inr accepted) missing

end Engine

end LiveQuery
