import LiveQuery.Proofs.SentMarks
import LiveQuery.Proofs.WriteLedger

/-!
# The write pipeline

A span of a queue begins when nothing counts as sent, and ends when all marks are lost.
The batches that are handed out in a span go out in the order of their numbers, none of them
twice, and no undecided batch is passed over. There are never more of them undecided than the
limit allows, and each time as many are handed out as the limit and the queue allow. Then the
next span hands out again what is still undecided, the oldest first.

The queue knows of a span only by its marks, on batches that may be decided in any order. The
batches on the wire and those that wait are the two parts of the undecided ones. A call takes
a batch out of one of the parts, adds a new batch at the end, or moves batches from the front
of the second part to the end of the first.
-/

namespace LiveQuery

/-- One call on a queue in a span. -/
inductive QueueCall where
  | append (mutations : List Mutation)
  | acknowledge (id : BatchId) (commit : Version)
  | reject (id : BatchId)
  | release (version : Version)
  | takeUnsent

/-- A queue, and what came to pass since the span began. -/
structure Span where
  queue : WriteQueue
  /-- The batches that were handed out, in this order. -/
  handedOut : List MutationBatch := []
  /-- The batches that were acknowledged or rejected. -/
  decided : List BatchId := []

namespace Span

/-- The span after a decision, if there was something to decide. -/
def settle (s : Span) : Option (MutationBatch × WriteQueue) → Span
  | none => s
  | some (batch, queue) => { s with queue, decided := batch.id :: s.decided }

/-- The span after a call. Every time batches are taken under one limit. -/
def step (limit : Nat) (s : Span) : QueueCall → Span
  | .append mutations => { s with queue := (s.queue.append mutations).2 }
  | .acknowledge id commit => s.settle (s.queue.acknowledge? id commit)
  | .reject id => s.settle (s.queue.reject? id)
  | .release version => { s with queue := (s.queue.release version).2 }
  | .takeUnsent =>
    let (batches, queue) := s.queue.takeUnsent limit
    { s with queue, handedOut := s.handedOut ++ batches }

/-- The span after calls in this order. -/
def run (limit : Nat) (s : Span) (calls : List QueueCall) : Span := calls.foldl (step limit) s

/-- The batches that were handed out and are not decided. -/
def underWay (s : Span) : List MutationBatch := s.handedOut.filter fun b => b.id ∉ s.decided

/-- The undecided batches that were not handed out. -/
def waiting (s : Span) : List MutationBatch :=
  s.queue.pending.filter fun b => b.id ∉ s.handedOut.map (·.id)

end Span

namespace WriteQueue

/-- The span that begins with a queue. -/
def span (q : WriteQueue) : Span := { queue := q }

/-- The queues with which a span begins: one that is new, one that is restored from batches with
    different numbers, and one that loses all marks at the end of another span. -/
inductive Opens : WriteQueue → Prop
  | new : Opens {}
  | restored {batches : List MutationBatch} (distinct : (batches.map (·.id)).Nodup) :
    Opens (.ofBatches batches)
  | unsent {q : WriteQueue} (opens : Opens q) (limit : Nat) (calls : List QueueCall) :
    Opens (q.span.run limit calls).queue.markAllUnsent

/-- Batches in the order of their numbers, and no number twice. -/
abbrev Increasing (batches : List MutationBatch) : Prop :=
  batches.Pairwise fun a b => a.id.val < b.id.val

variable {q r : WriteQueue} {batch : MutationBatch} {limit : Nat}

/-! ## What a call does to the two parts -/

theorem onWire_eq (q : WriteQueue) :
    q.onWire = ((q.entries.filter (·.isPending)).filter (·.sent)).map (·.batch) := by
  simp only [onWire, List.filter_filter, Bool.and_comm]

theorem waiting_eq (q : WriteQueue) :
    q.waiting = ((q.entries.filter (·.isPending)).filter (!·.sent)).map (·.batch) := by
  simp only [waiting, List.filter_filter, Bool.and_comm]

/-- A new batch waits behind all others. -/
theorem onWire_append (q : WriteQueue) (mutations : List Mutation) :
    (q.append mutations).2.onWire = q.onWire := by
  simp [onWire, append, QueuedWrite.isPending]

theorem waiting_append (q : WriteQueue) (mutations : List Mutation) :
    (q.append mutations).2.waiting = q.waiting ++ [(q.append mutations).1] := by
  simp [waiting, append, QueuedWrite.isPending]

/-- No batch is released that is not decided. -/
theorem undecided_release (q : WriteQueue) (version : Version) :
    (q.release version).2.entries.filter (·.isPending) = q.entries.filter (·.isPending) := by
  have kept (w : QueuedWrite) :
      (w.isPending && !w.isCaughtUpBy version) = w.isPending := by
    rcases w with ⟨batch, _ | commit, sent⟩ <;> rfl
  simp only [release, List.filter_filter, kept]

/-- A decision takes one batch out of the undecided ones. -/
structure Decides (q : WriteQueue) (batch : MutationBatch) (r : WriteQueue) : Prop where
  nextId : r.nextId = q.nextId
  taken : ∃ front w back, w.batch = batch ∧
    q.entries.filter (·.isPending) = front ++ w :: back ∧
    r.entries.filter (·.isPending) = front ++ back

theorem decides_acknowledge {id : BatchId} {commit : Version}
    (done : q.acknowledge? id commit = some (batch, r)) : q.Decides batch r := by
  obtain ⟨before, w, rest, split, -, awaited, own, rfl⟩ := acknowledge_cases done
  have undecided : w.isPending = true := (isPending_of_awaits awaited).2
  have decided : QueuedWrite.isPending { w with status := .acknowledged commit } = false := rfl
  refine ⟨rfl, before.filter (·.isPending), w, rest.filter (·.isPending), own, ?_, ?_⟩
  · simp [split, undecided]
  · simp [decided]

theorem decides_reject {id : BatchId} (done : q.reject? id = some (batch, r)) :
    q.Decides batch r := by
  obtain ⟨before, w, rest, split, awaited, own, rfl⟩ := reject_cases done
  have undecided : w.isPending = true := (isPending_of_awaits awaited).2
  refine ⟨rfl, before.filter (·.isPending), w, rest.filter (·.isPending), own, ?_, ?_⟩
  · simp [split, undecided]
  · simp

section Decides

variable (decides : q.Decides batch r) (ordered : Increasing q.pending)
include decides

theorem Decides.fewer :
    (r.entries.filter (·.isPending)).Sublist (q.entries.filter (·.isPending)) := by
  obtain ⟨front, w, back, -, before, after⟩ := decides.taken
  rw [before, after]
  exact (List.Sublist.refl front).append (List.sublist_cons_self w back)

theorem Decides.mem : batch ∈ q.pending := by
  obtain ⟨front, w, back, rfl, before, -⟩ := decides.taken
  exact List.mem_map_of_mem (before ▸ List.mem_append_right front List.mem_cons_self)

include ordered

/-- All others stay: no other batch has the number of the one that is decided. -/
theorem Decides.undecided_eq : r.entries.filter (·.isPending) =
    (q.entries.filter (·.isPending)).filter fun w => w.batch.id ≠ batch.id := by
  obtain ⟨front, w, back, rfl, before, after⟩ := decides.taken
  rw [Increasing, pending, before, List.map_append, List.map_cons, List.pairwise_append,
    List.pairwise_cons] at ordered
  obtain ⟨-, ⟨later, -⟩, across⟩ := ordered
  have earlier : ∀ v ∈ front, v.batch.id ≠ w.batch.id := fun v member same =>
    absurd (across _ (List.mem_map_of_mem member) _ List.mem_cons_self) (by rw [same]; omega)
  have behind : ∀ v ∈ back, v.batch.id ≠ w.batch.id := fun v member same =>
    absurd (later _ (List.mem_map_of_mem member)) (by rw [same]; omega)
  have kept : front.filter (fun v => v.batch.id ≠ w.batch.id) = front :=
    List.filter_eq_self.mpr (by simpa using earlier)
  have kept' : back.filter (fun v => v.batch.id ≠ w.batch.id) = back :=
    List.filter_eq_self.mpr (by simpa using behind)
  rw [before, after, List.filter_append, kept, List.filter_cons_of_neg (by simp), kept']

theorem Decides.pending_eq : r.pending = q.pending.filter fun b => b.id ≠ batch.id := by
  rw [pending, decides.undecided_eq ordered, pending, List.filter_map]
  rfl

theorem Decides.onWire_eq : r.onWire = q.onWire.filter fun b => b.id ≠ batch.id := by
  rw [r.onWire_eq, q.onWire_eq, decides.undecided_eq ordered, List.filter_map, List.filter_comm]
  rfl

theorem Decides.waiting_eq : r.waiting = q.waiting.filter fun b => b.id ≠ batch.id := by
  rw [r.waiting_eq, q.waiting_eq, decides.undecided_eq ordered, List.filter_map, List.filter_comm]
  rfl

end Decides

/-- Sending batches decides on none. -/
theorem pending_takeUnsent (q : WriteQueue) (limit : Nat) :
    (q.takeUnsent limit).2.pending = q.pending := by
  have through (entries : List QueuedWrite) : (entries.filter (·.isPending)).map (·.batch) =
      ((entries.map fun w => (w.batch, w.status)).filter (·.2 == .pending)).map (·.1) := by
    rw [List.filter_map, List.map_map]
    rfl
  have same := map_takeFrom (limit - q.inFlight) q.entries
  change ((takeFrom (limit - q.inFlight) q.entries).2.filter (·.isPending)).map (·.batch) = _
  rw [through, same, ← through, pending]

/-- The batches that wait longest are taken. -/
theorem takeUnsent_eq (q : WriteQueue) (limit : Nat) :
    (q.takeUnsent limit).1 = q.waiting.take (limit - q.onWire.length) := by
  rw [length_onWire]
  exact takeFrom_eq _ _

/-- Taken batches go from the front of those that wait to the end of those on the wire. -/
theorem InWindow.parts_takeUnsent (window : q.InWindow limit) :
    (q.takeUnsent limit).2.onWire = q.onWire ++ (q.takeUnsent limit).1 ∧
      (q.takeUnsent limit).2.waiting = q.waiting.drop (limit - q.onWire.length) := by
  have before := window.pending_eq
  have after := window.takeUnsent.pending_eq
  have split := List.take_append_drop (limit - q.onWire.length) q.waiting
  rw [← takeUnsent_eq] at split
  have counted : (q.takeUnsent limit).2.onWire.length =
      (q.onWire ++ (q.takeUnsent limit).1).length := by
    rw [length_onWire, List.length_append, length_onWire]
    exact countP_takeFrom _ _
  rw [pending_takeUnsent, ← before, ← split, ← List.append_assoc] at after
  exact List.append_inj after counted

end WriteQueue

namespace Span

open WriteQueue

/-- What holds all through a span that began with the queue `q`. -/
structure Sound (q : WriteQueue) (limit : Nat) (s : Span) : Prop where
  window : s.queue.InWindow limit
  ordered : Increasing s.queue.pending
  below : ∀ b ∈ s.queue.pending, b.id.val < s.queue.nextId
  /-- The marks stand for what was handed out and is not decided. -/
  marked : s.queue.onWire = s.underWay
  increasing : Increasing s.handedOut
  /-- Whatever waits was not handed out, and is newer than all that was. -/
  behind : ∀ b ∈ s.handedOut, ∀ c ∈ s.queue.waiting, b.id.val < c.id.val
  issued : ∀ b ∈ s.handedOut, b.id.val < s.queue.nextId
  known : ∀ id ∈ s.decided, id.val < s.queue.nextId
  undecided : ∀ b ∈ s.queue.pending, b.id ∉ s.decided
  /-- A batch was undecided from the start, or it is new. -/
  origin : ∀ b, b ∈ s.queue.pending ∨ b ∈ s.handedOut → b ∈ q.pending ∨ q.nextId ≤ b.id.val
  later : q.nextId ≤ s.queue.nextId
  /-- A batch that was undecided at the start still is, unless it was decided. -/
  kept : ∀ b ∈ q.pending, b ∈ s.queue.pending ∨ b.id ∈ s.decided

variable {q : WriteQueue} {limit : Nat} {s : Span}

theorem mem_waiting_pending {b : MutationBatch} (waits : b ∈ s.queue.waiting) :
    b ∈ s.queue.pending := by
  rw [waiting_eq] at waits
  obtain ⟨w, member, rfl⟩ := List.mem_map.mp waits
  exact List.mem_map_of_mem (List.mem_of_mem_filter member)

namespace Sound

/-- A new batch has a number of its own, greater than all others. -/
theorem append (sound : s.Sound q limit) (mutations : List Mutation) :
    (s.step limit (.append mutations)).Sound q limit where
  window := sound.window.append mutations
  ordered := by
    change Increasing (s.queue.append mutations).2.pending
    rw [pending_append]
    refine List.pairwise_append.mpr ⟨sound.ordered, List.pairwise_singleton _ _, ?_⟩
    intro b old c new
    rw [List.mem_singleton.mp new]
    exact sound.below b old
  below b member := by
    rcases List.mem_append.mp (pending_append s.queue mutations ▸ member) with old | new
    · exact Nat.lt_succ_of_lt (sound.below b old)
    · rw [List.mem_singleton.mp new]
      exact Nat.lt_succ_self _
  marked := (onWire_append s.queue mutations).trans sound.marked
  increasing := sound.increasing
  behind b out c waits := by
    rcases List.mem_append.mp (waiting_append s.queue mutations ▸ waits) with old | new
    · exact sound.behind b out c old
    · rw [List.mem_singleton.mp new]
      exact sound.issued b out
  issued b out := Nat.lt_succ_of_lt (sound.issued b out)
  known id decided := Nat.lt_succ_of_lt (sound.known id decided)
  undecided b member decided := by
    rcases List.mem_append.mp (pending_append s.queue mutations ▸ member) with old | new
    · exact sound.undecided b old decided
    · rw [List.mem_singleton.mp new] at decided
      exact Nat.lt_irrefl _ (sound.known _ decided)
  origin b member := by
    rcases member with member | out
    · rcases List.mem_append.mp (pending_append s.queue mutations ▸ member) with old | new
      · exact sound.origin b (.inl old)
      · rw [List.mem_singleton.mp new]
        exact .inr sound.later
    · exact sound.origin b (.inr out)
  later := Nat.le_succ_of_le sound.later
  kept b start := (sound.kept b start).imp_left fun old =>
    pending_append s.queue mutations ▸ List.mem_append_left _ old

/-- A decided batch is neither on the wire nor waits any more. -/
theorem decides (sound : s.Sound q limit) {batch : MutationBatch} {r : WriteQueue}
    (decides : s.queue.Decides batch r) : (s.settle (some (batch, r))).Sound q limit where
  window := sound.window.fewer decides.fewer
  ordered := by
    change Increasing r.pending
    rw [decides.pending_eq sound.ordered]
    exact sound.ordered.filter _
  below b member := by
    have member : b ∈ r.pending := member
    rw [decides.pending_eq sound.ordered] at member
    exact decides.nextId ▸ sound.below b (List.mem_of_mem_filter member)
  marked := by
    change r.onWire = s.handedOut.filter fun b => b.id ∉ batch.id :: s.decided
    rw [decides.onWire_eq sound.ordered, sound.marked, underWay, List.filter_filter]
    exact List.filter_congr fun b _ => by simp
  increasing := sound.increasing
  behind b out c waits := by
    have waits : c ∈ r.waiting := waits
    rw [decides.waiting_eq sound.ordered] at waits
    exact sound.behind b out c (List.mem_of_mem_filter waits)
  issued b out := decides.nextId ▸ sound.issued b out
  known id decided := by
    rcases List.mem_cons.mp decided with rfl | before
    · exact decides.nextId ▸ sound.below batch decides.mem
    · exact decides.nextId ▸ sound.known id before
  undecided b member decided := by
    have member : b ∈ r.pending := member
    rw [decides.pending_eq sound.ordered, List.mem_filter] at member
    rcases List.mem_cons.mp decided with same | before
    · simp [same] at member
    · exact sound.undecided b member.1 before
  origin b member := by
    refine sound.origin b (member.imp_left fun member => ?_)
    have member : b ∈ r.pending := member
    rw [decides.pending_eq sound.ordered] at member
    exact List.mem_of_mem_filter member
  later := decides.nextId ▸ sound.later
  kept b start := by
    rcases sound.kept b start with old | before
    · by_cases same : b.id = batch.id
      · exact .inr (same ▸ List.mem_cons_self)
      · left
        change b ∈ r.pending
        rw [decides.pending_eq sound.ordered]
        exact List.mem_filter.mpr ⟨old, by simpa using same⟩
    · exact .inr (List.mem_cons_of_mem _ before)

theorem settle (sound : s.Sound q limit) {answer : Option (MutationBatch × WriteQueue)}
    (decides : ∀ batch r, answer = some (batch, r) → s.queue.Decides batch r) :
    (s.settle answer).Sound q limit := by
  cases answer with
  | none => exact sound
  | some decision => exact sound.decides (decides decision.1 decision.2 rfl)

/-- Batches that are released were decided before. -/
theorem release (sound : s.Sound q limit) (version : Version) :
    (s.step limit (.release version)).Sound q limit := by
  have entries := undecided_release s.queue version
  have pending : (s.queue.release version).2.pending = s.queue.pending :=
    congrArg (List.map QueuedWrite.batch) entries
  have onWire : (s.queue.release version).2.onWire = s.queue.onWire := by
    rw [onWire_eq, onWire_eq, entries]
  have waiting : (s.queue.release version).2.waiting = s.queue.waiting := by
    rw [waiting_eq, waiting_eq, entries]
  exact
    { window := sound.window.fewer (entries ▸ .refl _)
      ordered := pending ▸ sound.ordered
      below := pending ▸ sound.below
      marked := onWire.trans sound.marked
      increasing := sound.increasing
      behind := waiting ▸ sound.behind
      issued := sound.issued
      known := sound.known
      undecided := pending ▸ sound.undecided
      origin := pending ▸ sound.origin
      later := sound.later
      kept := pending ▸ sound.kept }

/-- The batches that are handed out are the first of those that wait. -/
theorem takeUnsent (sound : s.Sound q limit) :
    (s.step limit .takeUnsent).Sound q limit := by
  obtain ⟨onWire, left⟩ := sound.window.parts_takeUnsent
  have pending := pending_takeUnsent s.queue limit
  have ordered : Increasing s.queue.waiting :=
    sound.ordered.sublist (sound.window.pending_eq ▸ List.sublist_append_right _ _)
  have taken : ∀ b ∈ (s.queue.takeUnsent limit).1, b ∈ s.queue.waiting := by
    rw [takeUnsent_eq]
    exact fun b => List.mem_of_mem_take
  have apart : ∀ b ∈ (s.queue.takeUnsent limit).1, b ∈ s.queue.pending :=
    fun b member => mem_waiting_pending (taken b member)
  exact
    { window := sound.window.takeUnsent
      ordered := pending ▸ sound.ordered
      below := pending ▸ sound.below
      marked := by
        have undecided : (s.queue.takeUnsent limit).1.filter (fun b => b.id ∉ s.decided) =
            (s.queue.takeUnsent limit).1 :=
          List.filter_eq_self.mpr fun b member => by
            simpa using sound.undecided b (apart b member)
        change (s.queue.takeUnsent limit).2.onWire =
          (s.handedOut ++ (s.queue.takeUnsent limit).1).filter fun b => b.id ∉ s.decided
        rw [onWire, sound.marked, List.filter_append, undecided, underWay]
      increasing := by
        have first : Increasing (s.queue.takeUnsent limit).1 := by
          rw [takeUnsent_eq]
          exact ordered.sublist (List.take_sublist _ _)
        exact List.pairwise_append.mpr ⟨sound.increasing, first, fun b out c member =>
          sound.behind b out c (taken c member)⟩
      behind := by
        intro b out c waits
        have waits : c ∈ (s.queue.takeUnsent limit).2.waiting := waits
        rw [left] at waits
        rcases List.mem_append.mp out with before | now
        · exact sound.behind b before c (List.mem_of_mem_drop waits)
        · have now : b ∈ (s.queue.takeUnsent limit).1 := now
          rw [takeUnsent_eq] at now
          rw [Increasing, ← List.take_append_drop (limit - s.queue.onWire.length) s.queue.waiting]
            at ordered
          exact (List.pairwise_append.mp ordered).2.2 b now c waits
      issued := fun b out => (List.mem_append.mp out).elim (sound.issued b) fun now =>
        sound.below b (apart b now)
      known := sound.known
      undecided := pending ▸ sound.undecided
      origin := by
        rintro b (member | out)
        · exact sound.origin b (.inl (pending ▸ member))
        · exact sound.origin b ((List.mem_append.mp out).elim .inr fun now => .inl (apart b now))
      later := sound.later
      kept := pending ▸ sound.kept }

theorem step (sound : s.Sound q limit) (call : QueueCall) : (s.step limit call).Sound q limit := by
  cases call with
  | append mutations => exact sound.append mutations
  | acknowledge id commit => exact sound.settle fun _ _ => decides_acknowledge
  | reject id => exact sound.settle fun _ _ => decides_reject
  | release version => exact sound.release version
  | takeUnsent => exact sound.takeUnsent

theorem run (sound : s.Sound q limit) (calls : List QueueCall) :
    (s.run limit calls).Sound q limit := by
  induction calls generalizing s with
  | nil => exact sound
  | cons call rest ih => exact ih (sound.step call)

end Sound

end Span

namespace WriteQueue

/-- A queue in which nothing counts as sent. -/
structure Idle (q : WriteQueue) : Prop where
  unsent : q.markAllUnsent = q
  ordered : Increasing q.pending
  below : ∀ b ∈ q.pending, b.id.val < q.nextId

variable {q : WriteQueue}

theorem Idle.sound (idle : q.Idle) (limit : Nat) : q.span.Sound q limit := by
  have onWire : q.onWire = [] := by
    rw [← idle.unsent, ← List.length_eq_zero_iff, length_onWire, inFlight_markAllUnsent]
  exact
    { window := idle.unsent ▸ .unsent q limit
      ordered := idle.ordered
      below := idle.below
      marked := onWire
      increasing := .nil
      behind := nofun
      issued := nofun
      known := nofun
      undecided := fun _ _ => List.not_mem_nil
      origin := fun b member => .inl (member.resolve_right List.not_mem_nil)
      later := Nat.le_refl _
      kept := fun b member => .inl member }

theorem pending_markAllUnsent (q : WriteQueue) : q.markAllUnsent.pending = q.pending := by
  rw [pending, markAllUnsent, List.filter_map, List.map_map]
  rfl

/-- The batches of a restored queue are put in the order of their numbers. -/
theorem idle_ofBatches {batches : List MutationBatch} (distinct : (batches.map (·.id)).Nodup) :
    (ofBatches batches).Idle := by
  have pending : (ofBatches batches).pending =
      sortBy (fun a b => decide (a.id.val ≤ b.id.val)) batches := by
    simp [pending, ofBatches, List.filter_map, Function.comp_def, QueuedWrite.isPending]
  have sorted : (ofBatches batches).pending.Pairwise fun a b => a.id.val ≤ b.id.val := by
    rw [pending]
    refine (pairwise_sortBy ?_ ?_ batches).imp fun le => of_decide_eq_true le
    · exact fun a b => by simpa using Nat.le_total _ _
    · exact fun a b c le le' => decide_eq_true
        (Nat.le_trans (of_decide_eq_true le) (of_decide_eq_true le'))
  have apart : (ofBatches batches).pending.Pairwise fun a b => a.id ≠ b.id := by
    rw [← List.pairwise_map (f := MutationBatch.id), pending]
    exact ((perm_sortBy _ batches).map _).nodup_iff.mpr distinct
  refine ⟨?_, ?_, fun b member => ?_⟩
  · simp [markAllUnsent, ofBatches, Function.comp_def]
  · refine (sorted.and apart).imp fun {a b} both => Nat.lt_of_le_of_ne both.1 fun same => ?_
    exact both.2 (congrArg BatchId.mk same)
  · obtain ⟨w, queued, rfl⟩ := List.mem_map.mp (pending_sublist _ |>.subset member)
    exact numbered_ofBatches batches w queued

/-- Every span begins with nothing sent. -/
theorem Opens.idle (opens : q.Opens) : q.Idle := by
  induction opens with
  | new =>
    have empty : ofBatches [] = {} := rfl
    exact empty ▸ idle_ofBatches List.nodup_nil
  | restored distinct => exact idle_ofBatches distinct
  | unsent _ limit calls ih =>
    have sound := (ih.sound limit).run calls
    refine ⟨markAllUnsent_markAllUnsent _, ?_, ?_⟩
    · rw [pending_markAllUnsent]
      exact sound.ordered
    · rw [pending_markAllUnsent]
      exact sound.below

end WriteQueue

namespace Span

open WriteQueue

/-- Batches go out in order and fill the window. -/
structure InOrder (limit : Nat) (s : Span) : Prop where
  /-- What was handed out has increasing numbers, and so no batch was handed out twice. -/
  increasing : Increasing s.handedOut
  /-- No more undecided batches are under way than the limit allows. -/
  window : s.underWay.length ≤ limit
  /-- No undecided batch was passed over. -/
  oldest : ∀ b ∈ s.queue.pending, ∀ c ∈ s.queue.pending, c ∈ s.handedOut →
    b.id.val < c.id.val → b ∈ s.handedOut
  /-- Of the batches that wait, the oldest are handed out next, as many as fit the window. -/
  filled : (s.queue.takeUnsent limit).1 = s.waiting.take (limit - s.underWay.length)

variable {q : WriteQueue} {limit : Nat} {s : Span}

/-- The batches that wait are those without a mark. -/
theorem Sound.waiting_eq (sound : s.Sound q limit) : s.waiting = s.queue.waiting := by
  have none_wire : s.queue.onWire.filter (fun b => b.id ∉ s.handedOut.map (·.id)) = [] := by
    refine List.filter_eq_nil_iff.mpr fun b wired => ?_
    rw [sound.marked] at wired
    simpa using ⟨b, List.mem_of_mem_filter wired, rfl⟩
  have all_wait : s.queue.waiting.filter (fun b => b.id ∉ s.handedOut.map (·.id)) =
      s.queue.waiting := by
    refine List.filter_eq_self.mpr fun b waits => ?_
    rw [decide_eq_true_eq]
    intro out
    obtain ⟨c, out, same⟩ := List.mem_map.mp out
    have less := sound.behind c out b waits
    rw [same] at less
    exact Nat.lt_irrefl _ less
  rw [waiting, ← sound.window.pending_eq, List.filter_append, none_wire, all_wait,
    List.nil_append]

/-- An undecided batch was handed out or waits. -/
theorem Sound.mem_pending (sound : s.Sound q limit) {b : MutationBatch}
    (member : b ∈ s.queue.pending) : b ∈ s.handedOut ∨ b ∈ s.waiting := by
  rw [← sound.window.pending_eq, sound.marked, ← sound.waiting_eq] at member
  exact (List.mem_append.mp member).imp_left List.mem_of_mem_filter

theorem Sound.inOrder (sound : s.Sound q limit) : s.InOrder limit where
  increasing := sound.increasing
  window := by
    rw [← sound.marked, length_onWire]
    exact sound.window.bound
  oldest b member c member' out less := by
    rcases sound.mem_pending member with here | waits
    · exact here
    · rw [sound.waiting_eq] at waits
      exact absurd (sound.behind c out b waits) (Nat.lt_asymm less)
  filled := by rw [takeUnsent_eq, sound.waiting_eq, sound.marked]

end Span

namespace WriteQueue

/-- In every span of a queue, whatever is called in whatever order, batches go out in order and fill
    the window. After the marks are lost the undecided batches are handed out again, from the
    oldest on: the first time as many of them as the limit allows, and in the end each that is
    not decided before its turn comes. No batch that was decided is handed out again. A queue uses
    up one number for each batch that is appended (`Span.nextId_run`), so in 64 bits all this holds
    for as many batches as the first number leaves room for. -/
theorem writes_go_out_in_order {q : WriteQueue} (opens : q.Opens) (limit : Nat)
    (calls : List QueueCall) :
    (q.span.run limit calls).InOrder limit ∧
      ∀ (more : Nat) (others : List QueueCall),
        let ended := (q.span.run limit calls).queue
        let again := ended.markAllUnsent.span.run more others
        again.InOrder more ∧
          (ended.markAllUnsent.takeUnsent more).1 = ended.pending.take more ∧
          (∀ b ∈ again.handedOut, b ∈ ended.pending ∨ ended.nextId ≤ b.id.val) ∧
          ∀ b ∈ ended.pending,
            b ∈ again.handedOut ∨ b ∈ again.waiting ∨ b.id ∈ again.decided := by
  refine ⟨((opens.idle.sound limit).run calls).inOrder, fun more others => ?_⟩
  have sound := ((opens.unsent limit calls).idle.sound more).run others
  refine ⟨sound.inOrder, takeUnsent_markAllUnsent _ more, fun b out => ?_, fun b member => ?_⟩
  · rw [← pending_markAllUnsent]
    exact sound.origin b (.inr out)
  · rw [← pending_markAllUnsent] at member
    rcases sound.kept b member with still | decided
    · exact (sound.mem_pending still).imp_right .inl
    · exact .inr (.inr decided)

/-- Two batches are restored and two are new. One of the new ones is decided while it waits, and the
    oldest one is rejected on the wire. -/
def mixedCalls : List QueueCall :=
  [.append [], .append [], .takeUnsent, .acknowledge ⟨8⟩ ⟨1⟩, .reject ⟨3⟩, .takeUnsent]

/-- Two of the batches are under way at a time. After the marks are lost the older one of those that
    are left comes first. -/
theorem restored_writes_go_out_in_order :
    let q := ofBatches [⟨⟨7⟩, []⟩, ⟨⟨3⟩, []⟩]
    let s := q.span.run 2 mixedCalls
    q.Opens ∧ s.handedOut.map (·.id.val) = [3, 7, 9] ∧ s.underWay.map (·.id.val) = [7, 9] ∧
      s.InOrder 2 ∧ (s.queue.markAllUnsent.takeUnsent 1).1.map (·.id.val) = [7] := by
  intro q s
  have opens : q.Opens := .restored (by decide)
  obtain ⟨inOrder, next⟩ := writes_go_out_in_order opens 2 mixedCalls
  obtain ⟨-, again, -⟩ := next 1 []
  refine ⟨opens, by decide +kernel, by decide +kernel, inOrder, ?_⟩
  have left : (s.queue.pending.take 1).map (·.id.val) = [7] := by decide +kernel
  exact again ▸ left

end WriteQueue

end LiveQuery
