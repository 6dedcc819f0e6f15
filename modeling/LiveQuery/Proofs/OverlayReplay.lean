import LiveQuery.Proofs.QueuedWrites

/-!
# What a queue shows of one document

The reference is a replay: every write to the key that the server's state cannot
contain yet, in order, each applied to contents alone. A write is due if it is
pending, or if it is acknowledged at a commit past the state below; without a
state below every write is due.

The overlay decides about an acknowledged write by the version of the document
that earlier writes have already moved. It therefore keeps, of the due
acknowledged writes, only those whose commit is past every commit kept before.
Two writes to one document in one batch share their commit, so the second one
is left out as soon as the batch is acknowledged. The overlay is the replay of
what it keeps, in every queue whose acknowledged batches stand first, and it
keeps everything that is due exactly if the commits rise strictly.
-/

namespace LiveQuery

open Json

/-- What is known of a document apart from its version and mark: nothing, that it does not exist,
    or its fields. -/
abbrev Contents := Option (Option Fields)

/-- The contents of a state. -/
def contentsOf (d : Option Document) : Contents := d.map (·.data)

/-- A write as an effect on contents: it replaces them, it removes them, or it merges into those
    of a document that exists. -/
def Mutation.write (m : Mutation) (known : Contents) : Contents :=
  match m.kind with
  | .set => some (some m.data)
  | .delete => some none
  | .patch => known.map (·.map (· ∪ m.data))

/-- Laying a write over a state has its effect on contents. -/
theorem contentsOf_applyLocal (m : Mutation) (d : Option Document) :
    contentsOf (m.applyLocal d) = m.write (contentsOf d) := by
  obtain ⟨key, kind, data⟩ := m
  cases kind with
  | set => rfl
  | delete => rfl
  | patch =>
    cases d with
    | none => rfl
    | some d =>
      obtain ⟨_, _, fields, _⟩ := d
      cases fields <;> rfl

/-- An acknowledged write has the same effect on contents; only version and mark differ. -/
theorem contentsOf_applyCommitted (m : Mutation) (d : Option Document) (commit : Version) :
    contentsOf (m.applyCommitted d commit) = m.write (contentsOf d) := by
  rw [← contentsOf_applyLocal]
  simp [contentsOf, Mutation.applyCommitted, Function.comp_def]

/-- Replays writes on contents, oldest first. -/
def replay (writes : List MarkedWrite) (known : Contents) : Contents :=
  writes.foldl (fun known write => write.2.write known) known

namespace MarkedWrite

/-- The commit of an acknowledged write. -/
def commit? (write : MarkedWrite) : Option Version :=
  match write.1 with
  | .pending => none
  | .acknowledged commit => some commit

/-- Whether a state seen at a version cannot contain the write. -/
def isDue (seen : Option Version) (write : MarkedWrite) : Bool :=
  match write.1 with
  | .pending => true
  | .acknowledged commit => seen.all fun version => decide (version < commit)

/-- The version of the document after an acknowledged write at a commit. A patch of a document of
    which nothing is known leaves nothing known. -/
def seenAfter (seen : Option Version) (commit : Version) (m : Mutation) : Option Version :=
  if seen.isNone && m.kind == .patch then none else some commit

/-- The writes that the overlay does not skip over a state seen at a version. -/
def kept : Option Version → List MarkedWrite → List MarkedWrite
  | _, [] => []
  | seen, (.pending, m) :: rest => (.pending, m) :: kept seen rest
  | seen, (.acknowledged commit, m) :: rest =>
    if isDue seen (.acknowledged commit, m) then
      (.acknowledged commit, m) :: kept (seenAfter seen commit m) rest
    else kept seen rest

/-- The acknowledged writes that move a version. Patches at the front of the writes to a document
    of which nothing is known do nothing. -/
def moving (seen : Option Version) (writes : List MarkedWrite) : List MarkedWrite :=
  let acknowledged := writes.filter (·.commit?.isSome)
  if seen.isNone then acknowledged.dropWhile (·.2.kind == .patch) else acknowledged

/-- The commits of the due acknowledged writes. -/
def commitsPast (seen : Option Version) (writes : List MarkedWrite) : List Version :=
  (writes.filter (isDue seen)).filterMap (·.commit?)

/-- The commits of the due acknowledged writes that move a version. -/
def dueCommits (seen : Option Version) (writes : List MarkedWrite) : List Version :=
  commitsPast seen (moving seen writes)

/-- Each due acknowledged write commits strictly later than those before it. -/
def CommitsRise (seen : Option Version) (writes : List MarkedWrite) : Prop :=
  (dueCommits seen writes).Pairwise (· < ·)

/-- A version that a due write moved bars no write that was not due before: it only grew. -/
theorem due_before_move {seen : Option Version} {commit : Version} {m : Mutation}
    (due : isDue seen (.acknowledged commit, m)) {write : MarkedWrite}
    (later : isDue (seenAfter seen commit m) write) : isDue seen write := by
  obtain ⟨status, other⟩ := write
  cases seen with
  | none => cases status <;> rfl
  | some version =>
    cases status with
    | pending => rfl
    | acknowledged next =>
      simp only [isDue, Option.all_some, decide_eq_true_eq, seenAfter, Option.isNone_some,
        Bool.false_and, Bool.false_eq_true, if_false] at due later ⊢
      exact Nat.lt_trans due later

/-- Whatever the overlay keeps is due. -/
theorem kept_sublist_due (seen : Option Version) (writes : List MarkedWrite) :
    (kept seen writes).Sublist (writes.filter (isDue seen)) := by
  induction writes generalizing seen with
  | nil => exact List.Sublist.slnil
  | cons write rest ih =>
    obtain ⟨status, m⟩ := write
    cases status with
    | pending => simpa only [kept, List.filter_cons, isDue, if_true] using (ih seen).cons_cons _
    | acknowledged commit =>
      by_cases due : isDue seen (.acknowledged commit, m)
      · simp only [kept, due, if_true, List.filter_cons]
        apply List.Sublist.cons_cons
        exact (ih _).trans (List.monotone_filter_right rest fun _ => due_before_move due)
      · simpa only [kept, due, Bool.false_eq_true, if_false, List.filter_cons] using ih seen

/-- A state bars an acknowledged write that commits no later than it, and then lays nothing. The
    mark of local writes would lift the bar, and a state of the server does not carry it. -/
theorem lay_acknowledged (commit : Version) (m : Mutation) (d : Option Document)
    (clean : ∀ x, d = some x → x.hasLocalWrites = false) :
    (WriteStatus.acknowledged commit).lay d m =
      if isDue (d.map (·.version)) (.acknowledged commit, m) then m.applyCommitted d commit
      else d := by
  cases d with
  | none => rfl
  | some x =>
    have unmarked : x.hasLocalWrites = false := clean x rfl
    by_cases due : x.version < commit
    · have later : ¬ commit ≤ x.version := Nat.not_le_of_lt due
      simp [WriteStatus.lay, isDue, due, later]
    · have reached : commit ≤ x.version := Nat.le_of_not_lt due
      simp [WriteStatus.lay, isDue, due, reached, unmarked]

/-- A committed write moves the version of what is known to its commit. -/
theorem version_applyCommitted (commit : Version) (m : Mutation) (d : Option Document) :
    (m.applyCommitted d commit).map (·.version) = seenAfter (d.map (·.version)) commit m := by
  obtain ⟨key, kind, data⟩ := m
  cases d with
  | none => cases kind <;> rfl
  | some x =>
    obtain ⟨_, _, fields, _⟩ := x
    cases kind <;> cases fields <;> rfl

/-- A committed write leaves a state of the server. -/
theorem clean_applyCommitted (commit : Version) (m : Mutation) (d : Option Document) :
    ∀ x, m.applyCommitted d commit = some x → x.hasLocalWrites = false := by
  intro x written
  obtain ⟨laid, _, rfl⟩ := Option.map_eq_some_iff.mp written
  rfl

/-- Pending writes are all laid, one over the other. -/
theorem contentsOf_lay_pending (writes : List MarkedWrite)
    (pending : ∀ write ∈ writes, write.1 = .pending) (d : Option Document) :
    contentsOf (writes.foldl (fun d write => write.1.lay d write.2) d) =
      replay writes (contentsOf d) := by
  induction writes generalizing d with
  | nil => rfl
  | cons write rest ih =>
    have laid : write.1.lay d write.2 = write.2.applyLocal d := by
      rw [pending write List.mem_cons_self]
      rfl
    rw [List.foldl_cons, ih (fun other member => pending other (List.mem_cons_of_mem _ member)),
      laid, contentsOf_applyLocal]
    rfl

/-- Nothing is skipped among pending writes. -/
theorem kept_pending (seen : Option Version) (writes : List MarkedWrite)
    (pending : ∀ write ∈ writes, write.1 = .pending) : kept seen writes = writes := by
  induction writes with
  | nil => rfl
  | cons write rest ih =>
    obtain ⟨status, m⟩ := write
    obtain rfl : status = .pending := pending _ List.mem_cons_self
    rw [kept, ih fun other member => pending other (List.mem_cons_of_mem _ member)]

/-- Laying writes over a state of the server replays what is kept of them. As long as acknowledged
    writes are laid the state stays one of the server, and its version is the last commit kept;
    from the first pending write on everything is laid. -/
theorem contentsOf_lay (writes : List MarkedWrite)
    (ordered : writes.Pairwise fun earlier later => earlier.1 = .pending → later.1 = .pending)
    (d : Option Document) (clean : ∀ x, d = some x → x.hasLocalWrites = false) :
    contentsOf (writes.foldl (fun d write => write.1.lay d write.2) d) =
      replay (kept (d.map (·.version)) writes) (contentsOf d) := by
  induction writes generalizing d with
  | nil => rfl
  | cons write rest ih =>
    obtain ⟨after, tail⟩ := List.pairwise_cons.mp ordered
    obtain ⟨status, m⟩ := write
    cases status with
    | pending =>
      have pending : ∀ write ∈ (WriteStatus.pending, m) :: rest, write.1 = .pending := by
        intro write member
        rcases List.mem_cons.mp member with rfl | member
        · rfl
        · exact after write member rfl
      rw [contentsOf_lay_pending _ pending, kept_pending _ _ pending]
    | acknowledged commit =>
      rw [List.foldl_cons, lay_acknowledged commit m d clean]
      by_cases due : isDue (d.map (·.version)) (.acknowledged commit, m)
      · simp only [due, if_true, kept]
        rw [ih tail _ (clean_applyCommitted commit m d), version_applyCommitted,
          contentsOf_applyCommitted]
        rfl
      · simp only [due, Bool.false_eq_true, if_false, kept]
        exact ih tail d clean

/-- Pending writes have no commit and may be left out. -/
theorem commitsPast_acknowledged (seen : Option Version) (writes : List MarkedWrite) :
    commitsPast seen (writes.filter (·.commit?.isSome)) = commitsPast seen writes := by
  simp only [commitsPast, List.filter_filter, List.filterMap_filter]
  congr
  funext write
  cases write.commit? <;> simp

/-- The commit of a due write of the list is among them, and nothing else is. -/
theorem mem_commitsPast {seen : Option Version} {writes : List MarkedWrite} {commit : Version} :
    commit ∈ commitsPast seen writes ↔
      ∃ m, (WriteStatus.acknowledged commit, m) ∈ writes ∧
        isDue seen (.acknowledged commit, m) := by
  simp only [commitsPast, List.mem_filterMap, List.mem_filter]
  constructor
  · rintro ⟨⟨status, m⟩, ⟨member, due⟩, found⟩
    cases status with
    | pending => cases found
    | acknowledged other =>
      obtain rfl : other = commit := Option.some.inj found
      exact ⟨m, member, due⟩
  · rintro ⟨m, member, due⟩
    exact ⟨_, ⟨member, due⟩, rfl⟩

/-- Over a known state every commit past it counts. -/
theorem dueCommits_known (version : Version) (writes : List MarkedWrite) :
    dueCommits (some version) writes = commitsPast (some version) writes := by
  exact commitsPast_acknowledged (some version) writes

/-- A pending write has no commit. -/
theorem dueCommits_pending (seen : Option Version) (m : Mutation) (rest : List MarkedWrite) :
    dueCommits seen ((.pending, m) :: rest) = dueCommits seen rest := by
  simp [dueCommits, moving, commit?]

/-- A write that is not due does not count. -/
theorem dueCommits_skipped {seen : Option Version} {commit : Version} {m : Mutation}
    (rest : List MarkedWrite) (skipped : ¬ isDue seen (.acknowledged commit, m)) :
    dueCommits seen ((.acknowledged commit, m) :: rest) = dueCommits seen rest := by
  cases seen with
  | none => exact absurd rfl skipped
  | some version => simp [dueCommits_known, commitsPast, skipped]

/-- A patch of a document of which nothing is known moves no version. -/
theorem dueCommits_idle (commit : Version) {m : Mutation} (rest : List MarkedWrite)
    (idle : m.kind = .patch) :
    dueCommits none ((.acknowledged commit, m) :: rest) = dueCommits none rest := by
  simp [dueCommits, moving, commit?, idle]

/-- A due write that moves the version counts, and after it every due commit does. -/
theorem dueCommits_moved {seen : Option Version} {commit : Version} {m : Mutation}
    (rest : List MarkedWrite) (due : isDue seen (.acknowledged commit, m))
    (moved : seenAfter seen commit m = some commit) :
    dueCommits seen ((.acknowledged commit, m) :: rest) = commit :: commitsPast seen rest := by
  rw [← commitsPast_acknowledged seen rest]
  cases seen with
  | none =>
    have overwrites : ¬ m.kind = .patch := by
      intro patch
      simp [seenAfter, patch] at moved
    simp [dueCommits, moving, commitsPast, commit?, overwrites, due]
  | some version => simp [dueCommits, moving, commitsPast, commit?, due]

/-- A write is due before a move and not after it exactly if it commits no later than the move. -/
theorem due_filter_eq_iff {seen : Option Version} {commit : Version} {m : Mutation}
    (due : isDue seen (.acknowledged commit, m)) (moved : seenAfter seen commit m = some commit)
    (rest : List MarkedWrite) :
    rest.filter (isDue (some commit)) = rest.filter (isDue seen) ↔
      ∀ next ∈ commitsPast seen rest, commit < next := by
  constructor
  · intro same next member
    rw [commitsPast, ← same, ← commitsPast, mem_commitsPast] at member
    obtain ⟨_, _, past⟩ := member
    simpa [isDue] using past
  · intro past
    apply List.filter_congr
    intro write member
    obtain ⟨status, other⟩ := write
    cases status with
    | pending => rfl
    | acknowledged next =>
      rw [Bool.eq_iff_iff]
      constructor
      · intro later
        exact due_before_move due (moved ▸ later)
      · intro before
        simpa [isDue] using past next (mem_commitsPast.mpr ⟨other, member, before⟩)

/-- The overlay keeps every due write exactly if the due commits rise. A write that moves the
    version bars whatever commits no later; the rest is an induction over that move. -/
theorem kept_eq_due_iff (seen : Option Version) (writes : List MarkedWrite) :
    kept seen writes = writes.filter (isDue seen) ↔ CommitsRise seen writes := by
  induction writes generalizing seen with
  | nil =>
    have none_due : dueCommits seen [] = [] := by cases seen <;> rfl
    simp [kept, CommitsRise, none_due]
  | cons write rest ih =>
    obtain ⟨status, m⟩ := write
    cases status with
    | pending =>
      have due : isDue seen (.pending, m) = true := rfl
      simpa [kept, due, CommitsRise, dueCommits_pending] using ih seen
    | acknowledged commit =>
      by_cases due : isDue seen (.acknowledged commit, m)
      case neg => simpa [kept, due, CommitsRise, dueCommits_skipped rest due] using ih seen
      case pos =>
        simp only [kept, due, if_true, List.filter_cons, List.cons.injEq, true_and]
        by_cases idle : seen = none ∧ m.kind = .patch
        · obtain ⟨rfl, patch⟩ := idle
          have still : seenAfter none commit m = none := by simp [seenAfter, patch]
          rw [still, ih none, CommitsRise, CommitsRise, dueCommits_idle commit rest patch]
        · have moved : seenAfter seen commit m = some commit := by
            simp only [seenAfter, Bool.and_eq_true, Option.isNone_iff_eq_none, beq_iff_eq, idle,
              if_false]
          rw [moved, CommitsRise, dueCommits_moved rest due moved, List.pairwise_cons,
            ← due_filter_eq_iff due moved]
          have narrow : (rest.filter (isDue (some commit))).Sublist (rest.filter (isDue seen)) :=
            List.monotone_filter_right rest fun _ later => due_before_move due (moved ▸ later)
          have rises := ih (some commit)
          rw [CommitsRise, dueCommits_known] at rises
          constructor
          · intro all
            have same : rest.filter (isDue (some commit)) = rest.filter (isDue seen) :=
              narrow.antisymm (all ▸ kept_sublist_due (some commit) rest)
            refine ⟨same, ?_⟩
            rw [commitsPast, ← same]
            exact rises.mp (all.trans same.symm)
          · rintro ⟨same, increasing⟩
            rw [commitsPast, ← same] at increasing
            exact (rises.mpr increasing).trans same

/-- Replaying depends on the writes alone, not on what the server has said about them. -/
theorem replay_congr {first second : List MarkedWrite}
    (same : first.map (·.2) = second.map (·.2)) (known : Contents) :
    replay first known = replay second known := by
  have through (writes : List MarkedWrite) :
      replay writes known = (writes.map (·.2)).foldl (fun known m => m.write known) known := by
    rw [List.foldl_map]
    rfl
  rw [through, through, same]

/-- The commits at the front rise with those of the whole list. -/
theorem CommitsRise.front {seen : Option Version} {front back : List MarkedWrite}
    (rise : CommitsRise seen (front ++ back)) : CommitsRise seen front := by
  refine List.Pairwise.sublist ?_ rise
  refine List.Sublist.filterMap _ (List.Sublist.filter _ ?_)
  cases seen with
  | none =>
    simp only [moving, Option.isNone_none, if_true, List.filter_append, List.dropWhile_append]
    split
    case isTrue gone => simp [List.isEmpty_iff.mp gone]
    case isFalse => exact List.sublist_append_left _ _
  | some version => simp [moving]

/-- Pending writes at the back have no commit. -/
theorem commitsRise_append_pending {seen : Option Version} {front back : List MarkedWrite}
    (pending : ∀ write ∈ back, write.1 = .pending) :
    CommitsRise seen (front ++ back) ↔ CommitsRise seen front := by
  have none_acknowledged : back.filter (·.commit?.isSome) = [] := by
    rw [List.filter_eq_nil_iff]
    intro write member
    simp [commit?, pending write member]
  simp [CommitsRise, dueCommits, moving, none_acknowledged]

end MarkedWrite

namespace WriteQueue

open MarkedWrite

/-- No acknowledged batch stands behind a pending one. -/
def InOrder (entries : List QueuedWrite) : Prop :=
  entries.Pairwise fun earlier later => earlier.status = .pending → later.status = .pending

/-- The writes of a batch are as far as the batch. -/
theorem status_of_mem_writesIn {entries : List QueuedWrite} {key : DocumentKey}
    {write : MarkedWrite} (member : write ∈ writesIn entries key) :
    ∃ w ∈ entries, w.status = write.1 := by
  obtain ⟨w, queued, here⟩ := List.mem_flatMap.mp member
  obtain ⟨m, _, rfl⟩ := List.mem_map.mp here
  exact ⟨w, queued, rfl⟩

/-- The order of batches is the order of their writes. -/
theorem InOrder.writes {entries : List QueuedWrite} (ordered : InOrder entries)
    (key : DocumentKey) :
    (writesIn entries key).Pairwise fun earlier later =>
      earlier.1 = .pending → later.1 = .pending := by
  rw [writesIn, List.pairwise_flatMap]
  constructor
  · intro w _
    rw [QueuedWrite.writesTo, List.pairwise_map]
    exact List.pairwise_of_forall fun _ _ pending => pending
  · apply ordered.imp
    intro earlier later order write here other there pending
    obtain ⟨_, _, rfl⟩ := List.mem_map.mp here
    obtain ⟨_, _, rfl⟩ := List.mem_map.mp there
    exact order pending

/-- The writes to a key that a state cannot contain. -/
def dueOn (q : WriteQueue) (key : DocumentKey) (base : Option Document) : List MarkedWrite :=
  (q.writesOn key).filter (isDue (base.map (·.version)))

/-- The writes to a key that the overlay lays over a state. -/
def keptOn (q : WriteQueue) (key : DocumentKey) (base : Option Document) : List MarkedWrite :=
  kept (base.map (·.version)) (q.writesOn key)

/-- The due acknowledged writes to a key commit one strictly after the other. -/
def RisesOn (q : WriteQueue) (key : DocumentKey) (base : Option Document) : Prop :=
  CommitsRise (base.map (·.version)) (q.writesOn key)

/-- The overlay shows the replay of what it keeps. -/
theorem contentsOf_overlay (q : WriteQueue) (key : DocumentKey) (base : Option Document)
    (ordered : InOrder q.entries) (clean : ∀ d, base = some d → d.hasLocalWrites = false) :
    contentsOf (q.overlay key base) = replay (q.keptOn key base) (contentsOf base) := by
  rw [overlay_eq_foldl]
  exact contentsOf_lay (q.writesOn key) (ordered.writes key) base clean

/-- With rising commits the overlay shows the replay of everything that is due. -/
theorem contentsOf_overlay_of_rises (q : WriteQueue) (key : DocumentKey) (base : Option Document)
    (ordered : InOrder q.entries) (clean : ∀ d, base = some d → d.hasLocalWrites = false)
    (rises : q.RisesOn key base) :
    contentsOf (q.overlay key base) = replay (q.dueOn key base) (contentsOf base) := by
  have all : q.keptOn key base = q.dueOn key base := (kept_eq_due_iff _ _).mpr rises
  rw [contentsOf_overlay q key base ordered clean, all]

/-- Acknowledging the oldest pending batch changes the mark of that batch alone. -/
theorem entries_of_acknowledge {q acknowledged : WriteQueue} {first : QueuedWrite}
    {batch : MutationBatch} {commit : Version}
    (oldest : q.entries.find? (·.isPending) = some first)
    (done : q.acknowledge? first.batch.id commit = some (batch, acknowledged)) :
    ∃ before after, q.entries = before ++ first :: after ∧
      (∀ w ∈ before, w.status ≠ .pending) ∧ first.status = .pending ∧
      acknowledged.entries = before ++ { first with status := .acknowledged commit } :: after := by
  obtain ⟨pending, before, after, split, decided⟩ := List.find?_eq_some_iff_append.mp oldest
  have awaited : first.awaits first.batch.id := by simp [QueuedWrite.awaits, pending]
  have passed : ∀ w ∈ before, !w.awaits first.batch.id := by
    intro w member
    have idle : w.isPending = false := by simpa using decided w member
    simp [QueuedWrite.awaits, idle]
  refine ⟨before, after, split, ?_, by simpa [QueuedWrite.isPending] using pending, ?_⟩
  · intro w member undecided
    have idle := decided w member
    simp [QueuedWrite.isPending, undecided] at idle
  · obtain ⟨_, _, rest⟩ := Option.map_eq_some_iff.mp done
    obtain ⟨-, rfl⟩ := Prod.mk.inj rest
    simpa only [split] using commitIn_split commit passed awaited after

/-- Behind decided batches the oldest pending one may be acknowledged. -/
theorem InOrder.commit {before after : List QueuedWrite} {first : QueuedWrite}
    (ordered : InOrder (before ++ first :: after)) (commit : Version)
    (decided : ∀ w ∈ before, w.status ≠ .pending) (pending : first.status = .pending) :
    InOrder (before ++ { first with status := .acknowledged commit } :: after) := by
  rw [InOrder, List.pairwise_append, List.pairwise_cons] at ordered ⊢
  obtain ⟨early, ⟨late, rest⟩, _⟩ := ordered
  refine ⟨early, ⟨fun w member _ => late w member pending, rest⟩, ?_⟩
  intro w member _ _ undecided
  exact absurd undecided (decided w member)

/-- From a pending batch on all writes are pending. -/
theorem InOrder.pending {before after : List QueuedWrite} {first : QueuedWrite}
    (ordered : InOrder (before ++ first :: after)) (pending : first.status = .pending)
    {key : DocumentKey} : ∀ write ∈ writesIn (first :: after) key, write.1 = .pending := by
  obtain ⟨_, behind, _⟩ := List.pairwise_append.mp ordered
  intro write member
  obtain ⟨w, queued, status⟩ := status_of_mem_writesIn member
  rcases List.mem_cons.mp queued with rfl | queued
  · exact status ▸ pending
  · exact status ▸ (List.pairwise_cons.mp behind).1 w queued pending

/-- A batch that is due is due with all its writes to the key, whatever was said about it. -/
theorem map_filter_due (w : QueuedWrite) (key : DocumentKey) (seen : Option Version)
    (due : ∀ m, isDue seen (w.status, m)) :
    ((w.writesTo key).filter (isDue seen)).map (·.2) =
      w.batch.mutations.filter (·.key == key) := by
  have all : (w.writesTo key).filter (isDue seen) = w.writesTo key := by
    rw [List.filter_eq_self]
    intro write member
    obtain ⟨m, _, rfl⟩ := List.mem_map.mp member
    exact due m
  rw [all, QueuedWrite.writesTo, List.map_map]
  exact List.map_id _

/-- An acknowledgement past the state leaves the batch due, and the contents shown stay, as long as
    the commits still rise with it. Both overlays replay the same writes. -/
theorem contentsOf_overlay_acknowledged {q acknowledged : WriteQueue} {first : QueuedWrite}
    {batch : MutationBatch} {commit : Version} (key : DocumentKey) (base : Option Document)
    (ordered : InOrder q.entries) (clean : ∀ d, base = some d → d.hasLocalWrites = false)
    (oldest : q.entries.find? (·.isPending) = some first)
    (done : q.acknowledge? first.batch.id commit = some (batch, acknowledged))
    (past : ∀ d, base = some d → d.version < commit) (rises : acknowledged.RisesOn key base) :
    contentsOf (acknowledged.overlay key base) = contentsOf (q.overlay key base) := by
  obtain ⟨before, after, split, decided, pending, committed⟩ := entries_of_acknowledge oldest done
  have still : InOrder acknowledged.entries :=
    committed ▸ InOrder.commit (split ▸ ordered) commit decided pending
  have undecided : ∀ write ∈ writesIn (first :: after) key, write.1 = .pending :=
    InOrder.pending (split ▸ ordered) pending
  have risen : q.RisesOn key base := by
    rw [RisesOn, writesOn, split, writesIn, List.flatMap_append]
    rw [RisesOn, writesOn, committed, writesIn, List.flatMap_append] at rises
    exact (commitsRise_append_pending undecided).mpr rises.front
  rw [contentsOf_overlay_of_rises acknowledged key base still clean rises,
    contentsOf_overlay_of_rises q key base ordered clean risen]
  apply replay_congr
  have due : ∀ m, isDue (base.map (·.version)) (.acknowledged commit, m) := by
    intro m
    cases base with
    | none => rfl
    | some d => simpa [isDue] using past d rfl
  have old := map_filter_due first key (base.map (·.version)) fun _ => pending ▸ rfl
  have new := map_filter_due { first with status := .acknowledged commit } key _ due
  simp only [dueOn, writesOn, split, committed, writesIn, List.flatMap_append, List.flatMap_cons,
    List.filter_append, List.map_append, old, new]

/-- The law of the overlay, for every queue whose acknowledged batches stand first and every state
    of the server. It shows the replay of the writes that it keeps, which are due; it keeps all
    that are due exactly if their commits rise, and then shows the replay of everything due. The
    acknowledgement of the oldest pending batch past the state then changes nothing either. -/
theorem overlay_is_replay (q : WriteQueue) (key : DocumentKey) (base : Option Document)
    (ordered : InOrder q.entries) (clean : ∀ d, base = some d → d.hasLocalWrites = false) :
    contentsOf (q.overlay key base) = replay (q.keptOn key base) (contentsOf base) ∧
      (q.keptOn key base).Sublist (q.dueOn key base) ∧
      (q.keptOn key base = q.dueOn key base ↔ q.RisesOn key base) ∧
      (q.RisesOn key base →
        contentsOf (q.overlay key base) = replay (q.dueOn key base) (contentsOf base)) ∧
      ∀ first commit batch acknowledged, q.entries.find? (·.isPending) = some first →
        q.acknowledge? first.batch.id commit = some (batch, acknowledged) →
        (∀ d, base = some d → d.version < commit) → acknowledged.RisesOn key base →
        contentsOf (acknowledged.overlay key base) = contentsOf (q.overlay key base) := by
  refine ⟨contentsOf_overlay q key base ordered clean, kept_sublist_due _ _,
    kept_eq_due_iff _ _, contentsOf_overlay_of_rises q key base ordered clean, ?_⟩
  intro first commit batch acknowledged oldest done past rises
  exact contentsOf_overlay_acknowledged key base ordered clean oldest done past rises

/-- Two batches with rising commits and a pending deletion, over a state before both. -/
theorem overlay_replays_rising_commits :
    let key : DocumentKey := ⟨"c/a"⟩
    let base : Option Document := some ⟨key, ⟨3⟩, some ∅, false⟩
    let q : WriteQueue := ⟨[
      { batch := ⟨⟨1⟩, [.set key ∅]⟩, status := .acknowledged ⟨5⟩ },
      { batch := ⟨⟨2⟩, [.patch key ∅]⟩, status := .acknowledged ⟨7⟩ },
      { batch := ⟨⟨3⟩, [.delete key]⟩ }], 4⟩
    InOrder q.entries ∧ q.RisesOn key base ∧
      contentsOf (q.overlay key base) = replay (q.dueOn key base) (contentsOf base) := by
  intro key base q
  have ordered : InOrder q.entries := by simp [InOrder, q]
  have rises : q.RisesOn key base := by
    have commits : dueCommits (base.map (·.version)) (q.writesOn key) = [⟨5⟩, ⟨7⟩] := rfl
    rw [RisesOn, CommitsRise, commits]
    simp only [List.pairwise_cons, List.mem_singleton, List.Pairwise.nil, and_true,
      List.not_mem_nil, false_imp_iff, implies_true, forall_eq]
    decide
  have clean : ∀ d, base = some d → d.hasLocalWrites = false := by
    intro d known
    rw [← Option.some.inj known]
  have law := overlay_is_replay q key base ordered clean
  exact ⟨ordered, rises, law.2.2.2.1 rises⟩

/-- A batch that writes a document and then deletes it. Pending, it shows the deletion; at its
    commit the deletion is skipped, and the document is shown again. -/
theorem acknowledged_deletion_is_skipped :
    let key : DocumentKey := ⟨"c/a"⟩
    let batch : MutationBatch := ⟨⟨1⟩, [.set key ∅, .delete key]⟩
    let pending : WriteQueue := ⟨[{ batch }], 2⟩
    let acknowledged : WriteQueue := ⟨[{ batch, status := .acknowledged ⟨5⟩ }], 2⟩
    InOrder acknowledged.entries ∧
      (pending.acknowledge? batch.id ⟨5⟩).map (·.2.entries) = some acknowledged.entries ∧
      contentsOf (acknowledged.overlay key none) ≠
        replay (acknowledged.dueOn key none) (contentsOf none) ∧
      contentsOf (acknowledged.overlay key none) ≠ contentsOf (pending.overlay key none) := by
  intro key batch pending acknowledged
  have shown : contentsOf (acknowledged.overlay key none) = some (some ∅) := rfl
  have due : replay (acknowledged.dueOn key none) (contentsOf none) = some none := rfl
  have before : contentsOf (pending.overlay key none) = some none := rfl
  refine ⟨List.pairwise_singleton _ _, rfl, ?_, ?_⟩
  · rw [shown, due]
    exact fun same => nomatch same
  · rw [shown, before]
    exact fun same => nomatch same

end WriteQueue

end LiveQuery
