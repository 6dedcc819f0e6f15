import LiveQuery.Proofs.WriteAccounts

/-!
# Writes are decided once

A session keeps a handle for every batch that its engine accepts. Whatever calls
are made in whatever order, the ledger of the engine stays balanced, and each
handle holds what is recorded of its batch: nothing as long as the batch is
pending, and its decision from then on. A decision that comes again, or for a
batch that is not pending, finds nothing to decide.
-/

namespace LiveQuery

open Std

section Handles

/-- The handles after decisions are put into them, one after the other. -/
def settled (handles : ExtTreeMap BatchId Handle) (told : List (BatchId × WriteOutcome)) :
    ExtTreeMap BatchId Handle :=
  told.foldl (fun handles mail => handles.modify mail.1 (·.settle (mail.2.result mail.1))) handles

theorem settled_append (handles : ExtTreeMap BatchId Handle)
    (told more : List (BatchId × WriteOutcome)) :
    settled handles (told ++ more) = settled (settled handles told) more :=
  List.foldl_append

/-- A handle is left as it is by the decisions on other batches. -/
theorem getElem?_settled_of_untold {told : List (BatchId × WriteOutcome)} {id : BatchId}
    (untold : ∀ mail ∈ told, mail.1 ≠ id) (handles : ExtTreeMap BatchId Handle) :
    (settled handles told)[id]? = handles[id]? := by
  induction told generalizing handles with
  | nil => rfl
  | cons mail rest ih =>
    obtain ⟨other, others⟩ := List.forall_mem_cons.mp untold
    refine (ih others _).trans ?_
    rw [ExtTreeMap.getElem?_modify, if_neg (mt LawfulEqOrd.eq_of_compare other)]

/-- What becomes of a handle depends on no other handle. -/
theorem getElem?_settled_congr {handles others : ExtTreeMap BatchId Handle} {id : BatchId}
    (same : handles[id]? = others[id]?) (told : List (BatchId × WriteOutcome)) :
    (settled handles told)[id]? = (settled others told)[id]? := by
  induction told generalizing handles others with
  | nil => exact same
  | cons mail rest ih =>
    refine ih ?_
    rw [ExtTreeMap.getElem?_modify, ExtTreeMap.getElem?_modify]
    split
    case isTrue here => rw [LawfulEqOrd.eq_of_compare here, same]
    case isFalse => exact same

theorem handles_posted (m : Mailbox) (deliveries : List (ListenerId × ListenEvent)) :
    (deliveries.foldl Mailbox.post m).handles = m.handles := by
  induction deliveries generalizing m with
  | nil => rfl
  | cons mail rest ih => exact ih (m.post mail)

theorem handles_decided (m : Mailbox) (told : List (BatchId × WriteOutcome)) :
    (told.foldl Mailbox.postDecision m).handles = settled m.handles told := by
  induction told generalizing m with
  | nil => rfl
  | cons mail rest ih => exact ih (m.postDecision mail)

/-- Fetching puts every decision into its handle. -/
theorem Mailbox.handles_fetch (m : Mailbox) (e : Engine) :
    (m.fetch e).1.handles = settled m.handles e.decisions :=
  (handles_decided _ _).trans (congrArg (settled · _) (handles_posted m e.deliveries))

end Handles

/-- Tenure store accepted kept s: an engine was made over `store`, and its session has come to `s`.
    Nobody else wrote to the store meanwhile, and every decision could be recorded. The engine
    accepted the batches in `accepted`, the latest first. The application did with its mail what it
    liked, but left the handles of the batches in `kept` as they were. -/
inductive Tenure (store : Store) : List BatchId → List BatchId → Session → Prop
  | start {config : Config} {s : Session} (booted : Session.boot config store = (.ok (), s)) :
    Tenure store [] [] s
  | perform {accepted kept : List BatchId} {s after : Session}
    (tenure : Tenure store accepted kept s) (action : Engine.Action) {reply : Engine.Reply}
    (performed : s.perform? action = some (reply, after)) :
    Tenure store (reply.batch?.toList ++ accepted) (reply.batch?.toList ++ kept) after
  | fetch {accepted kept : List BatchId} {s : Session} (tenure : Tenure store accepted kept s) :
    Tenure store accepted kept s.fetch
  | dropReceiver {accepted kept : List BatchId} {s : Session}
    (tenure : Tenure store accepted kept s) (id : ListenerId) :
    Tenure store accepted kept (s.dropReceiver id).2
  | touch {accepted kept rest : List BatchId} {s : Session} (tenure : Tenure store accepted kept s)
    (fewer : rest ⊆ kept) {mail : Mailbox}
    (same : ∀ id ∈ rest, mail.handles[id]? = s.mail.handles[id]?) :
    Tenure store accepted rest { s with mail }
  | setFailing {accepted kept : List BatchId} {s : Session} (tenure : Tenure store accepted kept s)
    {call : StoreCall} (other : call ≠ .saveOutcome) (on : Bool) :
    Tenure store accepted kept (s.setFailing call on)

/-- Handed kept recorded l handles: once all decisions are fetched, the handles of the batches in
    `kept` hold what is recorded of them. -/
structure Handed (kept : List BatchId) (recorded : List (BatchId × WriteOutcome)) (l : Ledger)
    (handles : ExtTreeMap BatchId Handle) : Prop where
  told : ∀ mail ∈ l.told, mail.1.val < l.nextId
  waiting : ∀ id ∈ kept, id ∈ l.stored → (settled handles l.told)[id]? = some .waiting
  decided : ∀ id ∈ kept, ∀ outcome, (id, outcome) ∈ recorded →
    (settled handles l.told)[id]? = some (.decided (outcome.result id))

namespace Handed

variable {store : Store} {accepted kept : List BatchId} {recorded : List (BatchId × WriteOutcome)}
  {l : Ledger} {handles : ExtTreeMap BatchId Handle}

/-- A new batch gets a handle of its own, and nothing was decided of it before. -/
theorem accept (handed : Handed kept recorded l handles)
    (balanced : l.Balanced store accepted recorded) (among : kept ⊆ accepted)
    (mutations : List Mutation) :
    Handed (⟨l.nextId⟩ :: kept) recorded (l.accept mutations)
      (handles.insert ⟨l.nextId⟩ .waiting) := by
  have untold : ∀ mail ∈ l.told, mail.1 ≠ ⟨l.nextId⟩ := by
    rintro mail told same
    have less := handed.told mail told
    rw [same] at less
    exact Nat.lt_irrefl _ less
  have new : (settled (handles.insert ⟨l.nextId⟩ .waiting) l.told)[(⟨l.nextId⟩ : BatchId)]? =
      some .waiting := by
    rw [getElem?_settled_of_untold untold, ExtTreeMap.getElem?_insert_self]
  have old {id : BatchId} (known : id ∈ kept) :
      id ≠ ⟨l.nextId⟩ ∧ (settled (handles.insert ⟨l.nextId⟩ .waiting) l.told)[id]? =
        (settled handles l.told)[id]? := by
    have differs : id ≠ ⟨l.nextId⟩ := by
      rintro rfl
      exact balanced.unknown (.inr (among known))
    refine ⟨differs, getElem?_settled_congr ?_ l.told⟩
    rw [ExtTreeMap.getElem?_insert, if_neg (mt LawfulEqOrd.eq_of_compare (Ne.symm differs))]
  refine ⟨fun mail told => Nat.lt_succ_of_lt (handed.told mail told), ?_, ?_⟩
  · intro id known there
    rcases List.mem_cons.mp known with rfl | known
    · exact new
    · obtain ⟨differs, same⟩ := old known
      refine same.trans (handed.waiting id known ?_)
      rw [Ledger.accept, ExtTreeMap.mem_insert] at there
      exact there.resolve_left fun here => differs (LawfulEqOrd.eq_of_compare here).symm
  · intro id known outcome decided
    rcases List.mem_cons.mp known with rfl | known
    · have recorded := List.mem_map_of_mem (f := (·.1)) decided
      exact absurd ((balanced.accounted _).mpr (.inr recorded)) balanced.unknown
    · exact (old known).2.trans (handed.decided id known outcome decided)

/-- A decision is told to the submitter of its batch, and to nobody else. -/
theorem decide (handed : Handed kept recorded l handles)
    (balanced : l.Balanced store accepted recorded) (among : kept ⊆ accepted)
    {batch : MutationBatch} {front back : List MutationBatch} (queued : List MutationBatch)
    (outcome : WriteOutcome) (awaited : l.pending = front ++ batch :: back) :
    Handed kept (recorded ++ [(batch.id, outcome)])
      (l.decide batch.id outcome queued (front ++ back)) handles := by
  have there : batch.id ∈ l.stored := balanced.mem_stored.mpr ⟨batch, by simp [awaited], rfl⟩
  let news := if l.awaited.contains batch.id then [(batch.id, outcome)] else []
  have own : ∀ mail ∈ news, mail.1 = batch.id := by
    intro mail member
    unfold news at member
    split at member
    · rw [List.mem_singleton.mp member]
    · cases member
  have elsewhere {id : BatchId} (differs : id ≠ batch.id) :
      (settled handles (l.told ++ news))[id]? = (settled handles l.told)[id]? := by
    rw [settled_append]
    exact getElem?_settled_of_untold
      (fun mail member same => differs (same.symm.trans (own mail member))) _
  have here (known : batch.id ∈ kept) :
      (settled handles (l.told ++ news))[batch.id]? =
        some (.decided (outcome.result batch.id)) := by
    have waits : l.awaited.contains batch.id = true :=
      ExtTreeSet.mem_iff_contains.mp ((balanced.awaited _).mpr ⟨among known, there⟩)
    have single : news = [(batch.id, outcome)] := if_pos waits
    rw [settled_append, single]
    change ((settled handles l.told).modify batch.id _)[batch.id]? = _
    rw [ExtTreeMap.getElem?_modify_self, handed.waiting _ known there]
    rfl
  refine ⟨?_, ?_, ?_⟩
  · intro mail told
    rcases List.mem_append.mp told with old | new
    · exact handed.told mail old
    · rw [own mail new]
      exact balanced.below there
  · intro id known still
    rw [Ledger.decide, ExtTreeMap.mem_erase] at still
    have differs : id ≠ batch.id := fun same => still.1 (same ▸ ReflOrd.compare_self)
    exact (elsewhere differs).trans (handed.waiting id known still.2)
  · intro id known other recent
    rcases List.mem_append.mp recent with old | new
    · have differs : id ≠ batch.id := by
        rintro rfl
        exact balanced.apart _ (List.mem_map_of_mem (f := (·.1)) old) there
      exact (elsewhere differs).trans (handed.decided id known other old)
    · obtain ⟨rfl, rfl⟩ := Prod.mk.inj (List.mem_singleton.mp new)
      exact here known

/-- A handle that is left as it was still holds what it held. -/
theorem touch (handed : Handed kept recorded l handles) {rest : List BatchId} (fewer : rest ⊆ kept)
    {others : ExtTreeMap BatchId Handle} (same : ∀ id ∈ rest, others[id]? = handles[id]?) :
    Handed rest recorded l others where
  told := handed.told
  waiting id left there :=
    (getElem?_settled_congr (same id left) l.told).trans (handed.waiting id (fewer left) there)
  decided id left outcome recent :=
    (getElem?_settled_congr (same id left) l.told).trans
      (handed.decided id (fewer left) outcome recent)

end Handed

/-- Accounts store accepted kept recorded e handles: the ledger of the engine is balanced, and the
    handles hold what it says. -/
structure Accounts (store : Store) (accepted kept : List BatchId)
    (recorded : List (BatchId × WriteOutcome)) (e : Engine)
    (handles : ExtTreeMap BatchId Handle) : Prop where
  balanced : e.ledger.Balanced store accepted recorded
  among : kept ⊆ accepted
  handed : Handed kept recorded e.ledger handles

namespace Accounts

variable {store : Store} {accepted kept : List BatchId} {recorded : List (BatchId × WriteOutcome)}
  {e after : Engine} {handles : ExtTreeMap BatchId Handle}

/-- One entry of the ledger records one decision at most, and adds a handle where a batch is
    accepted. -/
theorem step (accounts : Accounts store accepted kept recorded e handles) {batch? : Option BatchId}
    (step : e.ledger.Step batch? after.ledger) :
    ∃ recorded, Accounts store (batch?.toList ++ accepted) (batch?.toList ++ kept) recorded after
      (batch?.elim handles (handles.insert · .waiting)) := by
  obtain ⟨balanced, among, handed⟩ := accounts
  generalize entry : after.ledger = l at step
  cases step with
  | none => exact ⟨recorded, entry ▸ balanced, among, entry ▸ handed⟩
  | accept mutations =>
    exact ⟨recorded, entry ▸ balanced.accept mutations, List.cons_subset_cons _ among,
      entry ▸ handed.accept balanced among mutations⟩
  | refuse =>
    refine ⟨recorded, entry ▸ balanced.refuse, among, entry ▸ ?_⟩
    exact ⟨fun mail told => Nat.lt_succ_of_lt (handed.told mail told), handed.waiting,
      handed.decided⟩
  | @decide batch front back queued outcome awaited fewer remain =>
    exact ⟨recorded ++ [(batch.id, outcome)], entry ▸ balanced.decide outcome awaited fewer remain,
      among, entry ▸ handed.decide balanced among queued outcome awaited⟩
  | release fewer remain =>
    refine ⟨recorded, entry ▸ balanced.release fewer remain, among, entry ▸ ?_⟩
    exact ⟨handed.told, handed.waiting, handed.decided⟩

/-- Once decisions are fetched, their handles hold them. -/
theorem fetch (accounts : Accounts store accepted kept recorded e handles) :
    Accounts store accepted kept recorded { e with deliveries := [], decisions := [] }
      (settled handles e.decisions) where
  balanced := { accounts.balanced with }
  among := accounts.among
  handed := ⟨nofun, accounts.handed.waiting, accounts.handed.decided⟩

end Accounts

namespace Session

/-- A session keeps a handle for each batch that its engine accepts. -/
theorem perform?_running {s after : Session} {e : Engine} (running : s.host = .running e)
    {action : Engine.Action} {reply : Engine.Reply}
    (performed : s.perform? action = some (reply, after)) :
    reply = (e.perform action).1 ∧ after.host = .running (e.perform action).2 ∧
      after.mail.handles =
        reply.batch?.elim s.mail.handles (s.mail.handles.insert · .waiting) := by
  rw [perform?, running] at performed
  dsimp only [Host.engine?, Option.map_some] at performed
  generalize e.perform action = done at performed ⊢
  rcases done with ⟨answer, next⟩
  obtain ⟨rfl, rfl⟩ := Prod.mk.inj (Option.some.inj performed)
  refine ⟨rfl, rfl, ?_⟩
  cases answer <;> rfl

theorem handles_fetch {s : Session} {e : Engine} (running : s.host = .running e) :
    s.fetch.mail.handles = settled s.mail.handles e.decisions := by
  rw [fetch, running]
  exact Mailbox.handles_fetch s.mail e

/-- A receiver that is dropped takes no write with it. -/
theorem dropReceiver_running {s : Session} {e : Engine} (running : s.host = .running e)
    (id : ListenerId) : ∃ after, (s.dropReceiver id).2.host = .running after ∧
      after.ledger = e.ledger := by
  unfold dropReceiver
  dsimp only
  rw [running]
  dsimp only
  split
  · exact ⟨_, rfl, rfl⟩
  · exact ⟨e, rfl, rfl⟩

theorem handles_dropReceiver (s : Session) (id : ListenerId) :
    (s.dropReceiver id).2.mail.handles = s.mail.handles :=
  rfl

end Session

/-- Whether other calls fail does not keep decisions from being recorded. -/
theorem Store.records_setFailing {s : Store} (records : StoreCall.saveOutcome ∉ s.failing)
    {call : StoreCall} (other : call ≠ .saveOutcome) (on : Bool) :
    StoreCall.saveOutcome ∉ (s.setFailing call on).failing := by
  have others : StoreCall.saveOutcome ∉ s.failing.filter (· != call) :=
    fun member => records (List.mem_of_mem_filter member)
  rw [setFailing]
  cases on with
  | false => exact others
  | true => exact fun member => (List.mem_cons.mp member).elim (Ne.symm other) others

/-- All through a tenure the accounts are in order. -/
theorem Tenure.accounts {store : Store} {accepted kept : List BatchId} {s : Session}
    (keyed : store.Keyed) (records : StoreCall.saveOutcome ∉ store.failing)
    (tenure : Tenure store accepted kept s) :
    ∃ e recorded, s.host = .running e ∧
      Accounts store accepted kept recorded e s.mail.handles := by
  induction tenure with
  | @start config s booted =>
    unfold Session.boot at booted
    split at booted
    case h_1 e read =>
      obtain ⟨-, rfl⟩ := Prod.mk.inj booted
      have untold : e.ledger.told = [] := by rw [Engine.ofStore_undecided read]; rfl
      refine ⟨e, [], rfl, Ledger.balanced_ofStore keyed records read, List.Subset.refl _,
        ?_, nofun, nofun⟩
      rw [untold]
      exact nofun
    case h_2 => cases booted
  | @perform accepted kept s after tenure action reply performed ih =>
    obtain ⟨e, recorded, running, accounts⟩ := ih
    obtain ⟨rfl, host, handles⟩ := Session.perform?_running running performed
    obtain ⟨recorded, accounts⟩ := accounts.step
      (Engine.step_perform accounts.balanced.numbered_queue accounts.balanced.records action)
    exact ⟨_, recorded, host, handles ▸ accounts⟩
  | @fetch accepted kept s tenure ih =>
    obtain ⟨e, recorded, running, accounts⟩ := ih
    refine ⟨{ e with deliveries := [], decisions := [] }, recorded, ?_, ?_⟩
    · rw [Session.fetch, running]
      rfl
    · rw [Session.handles_fetch running]
      exact accounts.fetch
  | @dropReceiver accepted kept s tenure id ih =>
    obtain ⟨e, recorded, running, accounts⟩ := ih
    obtain ⟨after, host, same⟩ := Session.dropReceiver_running running id
    exact ⟨after, recorded, host, same ▸ accounts.balanced, accounts.among,
      Session.handles_dropReceiver s id ▸ same ▸ accounts.handed⟩
  | @touch accepted kept rest s tenure fewer mail same ih =>
    obtain ⟨e, recorded, running, balanced, among, handed⟩ := ih
    exact ⟨e, recorded, running, balanced, fun id left => among (fewer left),
      handed.touch fewer same⟩
  | @setFailing accepted kept s tenure call other on ih =>
    obtain ⟨e, recorded, running, balanced, among, handed⟩ := ih
    refine ⟨{ e with store := e.store.setFailing call on }, recorded, ?_,
      { balanced with records := Store.records_setFailing balanced.records other on },
      among, ⟨handed.told, handed.waiting, handed.decided⟩⟩
    rw [Session.setFailing, running]
    rfl

/-- A batch with the number is queued and not decided. -/
def WriteQueue.Awaits (q : WriteQueue) (id : BatchId) : Prop := ∃ batch ∈ q.pending, batch.id = id

/-- DecidedOnce store accepted kept s e recorded: of the batches that the engine `e` of the session
    `s` found in `store` and of those that it accepted, exactly the ones in `recorded` are
    decided. -/
structure DecidedOnce (store : Store) (accepted kept : List BatchId) (s : Session) (e : Engine)
    (recorded : List (BatchId × WriteOutcome)) : Prop where
  /-- No batch is lost. -/
  even : store.undecided.length + e.stats.writesSubmitted =
    e.stats.writesAcknowledged + e.stats.writesRejected + e.queue.pendingCount
  submitted : e.stats.writesSubmitted = accepted.length
  ascending : e.queue.entries.Pairwise fun a b => a.batch.id.val < b.batch.id.val
  outcomes : e.store.outcomes = store.outcomes ++ recorded
  once : (recorded.map (·.1)).Nodup
  decided : ∀ id, id ∈ recorded.map (·.1) ↔
    (id ∈ store.pending ∨ id ∈ accepted) ∧ ¬e.queue.Awaits id
  /-- No batch got a number twice, and the next one gets a greater number than all before. -/
  issued : accepted.Nodup ∧ ∀ id, id ∈ store.pending ∨ id ∈ accepted → id.val < e.queue.nextId
  /-- A handle holds nothing exactly as long as the batch is pending. Of an acknowledged batch it
      holds the commit version, and of a rejected one the fault with the number of the batch and the
      server's status. -/
  handles : ∀ id ∈ kept, ∃ handle, s.fetch.mail.handles[id]? = some handle ∧
    (handle = .waiting ↔ e.queue.Awaits id) ∧
    (∀ commit, (id, .acknowledged commit) ∈ recorded → handle = .decided (.ok commit)) ∧
    ∀ status, (id, .rejected status) ∈ recorded →
      handle = .decided (.error (.mutationRejected id status))
  /-- What is pending is decided as the server says. -/
  verdict : ∀ id, e.queue.Awaits id → ∀ now,
    (∀ commit, (e.perform (.handle (.writeAcked id commit) now)).2.store.outcomes =
      e.store.outcomes ++ [(id, .acknowledged commit)]) ∧
    ∀ status, (e.perform (.handle (.writeRejected id status) now)).2.store.outcomes =
      e.store.outcomes ++ [(id, .rejected status)]
  /-- What is not pending cannot be decided. -/
  final : ∀ id, ¬e.queue.Awaits id → ∀ now,
    (∀ commit, e.perform (.handle (.writeAcked id commit) now) = (.wait none, e)) ∧
    ∀ status, e.perform (.handle (.writeRejected id status) now) = (.wait none, e)

/-- Decisions may come in any order, again, or for any number, the stream may come and go, and
    anything else may be asked of the engine: at any time in a tenure every batch is decided once or
    pending, and its submitter knows which. The numbers of batches are taken to last; that they do
    so in 64 bits is what `Engine.numbers_fit` says. -/
theorem writes_are_decided_once {store : Store} {accepted kept : List BatchId} {s : Session}
    (keyed : store.Keyed) (records : StoreCall.saveOutcome ∉ store.failing)
    (tenure : Tenure store accepted kept s) :
    ∃ e recorded, s.host = .running e ∧ DecidedOnce store accepted kept s e recorded := by
  obtain ⟨e, recorded, running, balanced, among, handed⟩ := tenure.accounts keyed records
  have stored (id : BatchId) : id ∈ e.ledger.stored ↔ e.queue.Awaits id := balanced.mem_stored
  have ascending := balanced.ordered
  rw [Engine.ledger, List.pairwise_map] at ascending
  refine ⟨e, recorded, running,
    { even := balanced.even, submitted := balanced.counted
      ascending, outcomes := balanced.outcomes
      once := balanced.once, decided := fun id => ?_, issued := ⟨balanced.fresh, balanced.issued⟩
      handles := fun id known => ?_
      verdict := fun id awaits _ => Engine.outcomes_decided balanced.records awaits
      final := fun id idle now => ?_ }⟩
  · have accounted := balanced.accounted id
    rw [Ledger.Known, stored] at accounted
    rw [accounted, or_and_right, and_not_self_iff, false_or]
    exact (and_iff_left_of_imp fun decided awaits =>
      balanced.apart id decided ((stored id).mpr awaits)).symm
  · rw [Session.handles_fetch running]
    rcases (balanced.accounted id).mp (.inr (among known)) with there | decided
    · have undecided : id ∉ recorded.map (·.1) := fun decided => balanced.apart id decided there
      have absent {outcome : WriteOutcome} (recent : (id, outcome) ∈ recorded) : False :=
        undecided (List.mem_map_of_mem (f := (·.1)) recent)
      exact ⟨.waiting, handed.waiting id known there, iff_of_true rfl ((stored id).mp there),
        fun _ recent => (absent recent).elim, fun _ recent => (absent recent).elim⟩
    · obtain ⟨⟨_, outcome⟩, recent, rfl⟩ := List.mem_map.mp decided
      have holds := handed.decided _ known outcome recent
      have settled {other : WriteOutcome} (also : (_, other) ∈ recorded) :
          Handle.decided (outcome.result _) = .decided (other.result _) :=
        Option.some.inj (holds.symm.trans (handed.decided _ known other also))
      refine ⟨_, holds, iff_of_false ?_ ?_, fun _ also => settled also, fun _ also => settled also⟩
      · rintro ⟨⟩
      · exact fun awaits => balanced.apart _ decided ((stored _).mpr awaits)
  · obtain ⟨unacknowledged, unrejected⟩ := WriteQueue.decide_none
      fun batch pending own => idle ⟨batch, pending, own⟩
    refine ⟨fun commit => ?_, fun status => ?_⟩
    · change (Engine.Reply.wait none, e.acknowledge id commit) = _
      rw [Engine.acknowledge, unacknowledged commit]
    · change (Engine.Reply.wait none, e.reject id status) = _
      rw [Engine.reject, unrejected]

/-- A batch that an engine left undecided. -/
def leftBehind : MutationBatch := ⟨⟨3⟩, [.delete ⟨"c/a"⟩]⟩

/-- A store that holds the batch that was left behind. -/
def leftStore : Store := { pending := (∅ : ExtTreeMap BatchId MutationBatch).insert ⟨3⟩ leftBehind }

theorem keyed_leftStore : leftStore.Keyed :=
  have empty : Store.Keyed {} := fun _ _ there => nomatch ExtTreeMap.getElem?_empty.symm.trans there
  empty.insert leftBehind

/-- The batch that was left behind is acknowledged and the new one rejected. An acknowledgement that
    comes later changes nothing, and the submitter of the new one is told of the rejection. -/
theorem decided_once_after_late_word :
    ∃ s e recorded, Tenure leftStore [⟨4⟩] [⟨4⟩] s ∧ s.host = .running e ∧
      DecidedOnce leftStore [⟨4⟩] [⟨4⟩] s e recorded ∧
      recorded = [(⟨3⟩, .acknowledged ⟨7⟩), (⟨4⟩, .rejected ⟨.unavailable, "full"⟩)] ∧
      s.fetch.mail.handles[(⟨4⟩ : BatchId)]? =
        some (.decided (.error (.mutationRejected ⟨4⟩ ⟨.unavailable, "full"⟩))) := by
  have start : Tenure leftStore [] [] (Session.boot {} leftStore).2 := .start rfl
  have submitted := start.perform (.submit [.delete ⟨"c/b"⟩]) rfl
  have acknowledged := submitted.perform (.handle (.writeAcked ⟨3⟩ ⟨7⟩) .zero) rfl
  have rejected := acknowledged.perform
    (.handle (.writeRejected ⟨4⟩ ⟨.unavailable, "full"⟩) .zero) rfl
  have late : Tenure leftStore [⟨4⟩] [⟨4⟩] _ :=
    rejected.perform (.handle (.writeAcked ⟨4⟩ ⟨8⟩) .zero) rfl
  obtain ⟨e, recorded, running, once⟩ :=
    writes_are_decided_once keyed_leftStore List.not_mem_nil late
  have outcomes : recorded =
      [(⟨3⟩, .acknowledged ⟨7⟩), (⟨4⟩, .rejected ⟨.unavailable, "full"⟩)] := by
    cases running
    exact once.outcomes.symm
  obtain ⟨handle, held, -, -, told⟩ := once.handles ⟨4⟩ List.mem_cons_self
  have decided : handle = .decided (.error (.mutationRejected ⟨4⟩ ⟨.unavailable, "full"⟩)) :=
    told _ (by simp [outcomes])
  exact ⟨_, e, recorded, late, running, once, outcomes, decided ▸ held⟩

end LiveQuery
