import LiveQuery.Proofs.FreshSnapshots
import Mathlib.Data.List.DropRight

/-!
# When a pending write is marked

Each write that is laid decides anew about the mark: a pending one sets it, and an
acknowledged one takes it off, whatever stands below. So the mark tells of the
writes behind the last acknowledged one and of no others. It is set if one of
them does something, and a patch does something only to a document that exists.

A pending write that replaces or deletes a document keeps the document known in
any case. It is marked wherever no acknowledged write stands behind it, but
batches may be acknowledged out of order, and then it need not be.
-/

namespace LiveQuery

/-- Laid locally, a write marks its document, unless it is a patch of a document that does not
    exist; then it does nothing. -/
theorem Mutation.applyLocal_cases (m : Mutation) (d : Option Document) :
    ((m.kind ≠ .patch ∨ d.any (·.isPresent) = true) ∧
        ∃ x, m.applyLocal d = some x ∧ x.hasLocalWrites = true) ∨
      (m.kind = .patch ∧ d.any (·.isPresent) = false ∧ m.applyLocal d = d) := by
  unfold applyLocal
  dsimp only
  split
  case h_1 set => exact .inl ⟨.inl (by simp [set]), _, rfl, rfl⟩
  case h_2 delete => exact .inl ⟨.inl (by simp [delete]), _, rfl, rfl⟩
  case h_3 patch =>
    split
    case h_1 fields held =>
      obtain ⟨x, rfl, data⟩ := Option.bind_eq_some_iff.mp held
      exact .inl ⟨.inr (by simp [Document.isPresent, data]), _, rfl, rfl⟩
    case h_2 lacks =>
      refine .inr ⟨patch, ?_, rfl⟩
      cases d with
      | none => rfl
      | some x => simpa [Document.isPresent] using lacks

/-- An acknowledged write leaves nothing or a state without the mark. -/
theorem WriteStatus.clean_lay (commit : Version) (m : Mutation) (d : Option Document) :
    ((acknowledged commit).lay d m).any (·.hasLocalWrites) = false := by
  rw [lay]
  split
  case isTrue barred =>
    cases d with
    | none => rfl
    | some x =>
      have both : commit ≤ x.version ∧ x.hasLocalWrites = false := by simpa using barred
      exact both.2
  case isFalse => cases written : m.applyLocal d <;> simp [Mutation.applyCommitted, written]

/-- What is known stays known. -/
theorem WriteStatus.isSome_lay (status : WriteStatus) (m : Mutation) {d : Option Document}
    (known : d.isSome) : (status.lay d m).isSome := by
  have laid : (m.applyLocal d).isSome := by
    rcases m.applyLocal_cases d with ⟨-, x, written, -⟩ | ⟨-, -, same⟩
    · rw [written, Option.isSome_some]
    · rwa [same]
  cases status with
  | pending => exact laid
  | acknowledged commit =>
    rw [lay]
    split
    · exact known
    · simpa [Mutation.applyCommitted] using laid

namespace MarkedWrite

/-- Whether the server has not decided on the batch of the write. -/
def isPending (write : MarkedWrite) : Bool := write.1 == .pending

/-- Writes after one that is pending and no patch are laid over something known. -/
theorem isSome_foldl {writes : List MarkedWrite} {write : MarkedWrite} (member : write ∈ writes)
    (pending : write.1 = .pending) (overwrites : write.2.kind ≠ .patch) (d : Option Document) :
    (writes.foldl (fun d write => write.1.lay d write.2) d).isSome := by
  obtain ⟨before, after, rfl⟩ := List.append_of_mem member
  rw [List.foldl_append, List.foldl_cons]
  generalize before.foldl (fun d write => write.1.lay d write.2) d = below
  have known : (write.1.lay below write.2).isSome := by
    rw [pending]
    rcases write.2.applyLocal_cases below with ⟨-, x, written, -⟩ | ⟨patch, -⟩
    · exact Option.isSome_iff_exists.mpr ⟨x, written⟩
    · exact absurd patch overwrites
  generalize write.1.lay below write.2 = laid at known
  induction after generalizing laid with
  | nil => exact known
  | cons next rest ih => exact ih (by simp) _ (next.1.isSome_lay next.2 known)

/-- Pending writes leave a marked document if there was one, or if one of them does something to
    what they are laid over. -/
theorem marked_foldl_pending {writes : List MarkedWrite}
    (pending : ∀ write ∈ writes, write.1 = .pending) (d : Option Document) :
    (writes.foldl (fun d write => write.1.lay d write.2) d).any (·.hasLocalWrites) = true ↔
      d.any (·.hasLocalWrites) = true ∨
        ∃ write ∈ writes, write.2.kind ≠ .patch ∨ d.any (·.isPresent) = true := by
  induction writes generalizing d with
  | nil => simp
  | cons write rest ih =>
    obtain ⟨here, later⟩ := List.forall_mem_cons.mp pending
    have laid : write.1.lay d write.2 = write.2.applyLocal d := by
      rw [here]
      rfl
    rw [List.foldl_cons, laid, ih later, List.exists_mem_cons_iff]
    rcases write.2.applyLocal_cases d with ⟨does, x, written, mark⟩ | ⟨patch, absent, same⟩
    · simp [written, mark, does]
    · simp [same, patch, absent]

end MarkedWrite

namespace WriteQueue

/-- The pending writes to a key that no acknowledged write stands behind. -/
def trailing (q : WriteQueue) (key : DocumentKey) : List MarkedWrite :=
  (q.writesOn key).rtakeWhile MarkedWrite.isPending

/-- The writes to a key up to the last acknowledged one. -/
def leading (q : WriteQueue) (key : DocumentKey) : List MarkedWrite :=
  (q.writesOn key).rdropWhile MarkedWrite.isPending

/-- The state that the trailing writes are laid over. -/
def beneath (q : WriteQueue) (key : DocumentKey) (base : Option Document) : Option Document :=
  (q.leading key).foldl (fun d write => write.1.lay d write.2) base

/-- Whether a trailing write does something to that state: it is no patch, or it patches a
    document that exists. -/
def MarksOn (q : WriteQueue) (key : DocumentKey) (base : Option Document) : Prop :=
  ∃ write ∈ q.trailing key,
    write.2.kind ≠ .patch ∨ (q.beneath key base).any (·.isPresent) = true

theorem leading_append_trailing (q : WriteQueue) (key : DocumentKey) :
    q.leading key ++ q.trailing key = q.writesOn key :=
  List.rdropWhile_append_rtakeWhile

theorem pending_of_mem_trailing {q : WriteQueue} {key : DocumentKey} {write : MarkedWrite}
    (member : write ∈ q.trailing key) : write.1 = .pending := by
  have pending : MarkedWrite.isPending write = true := List.mem_rtakeWhile_imp member
  exact eq_of_beq pending

/-- The leading writes end with an acknowledged one, if there are any. -/
theorem leading_cases (q : WriteQueue) (key : DocumentKey) :
    q.leading key = [] ∨
      ∃ before commit m, q.leading key = before ++ [(.acknowledged commit, m)] := by
  cases front : q.leading key using List.reverseRecOn with
  | nil => exact .inl rfl
  | append_singleton before last =>
    have some_there : q.leading key ≠ [] := by simp [front]
    have left : ¬MarkedWrite.isPending ((q.leading key).getLast some_there) = true :=
      List.rdropWhile_last_not MarkedWrite.isPending (q.writesOn key) some_there
    have decided : ¬MarkedWrite.isPending last = true := by simpa [front] using left
    obtain ⟨status, m⟩ := last
    cases status with
    | pending => exact absurd rfl decided
    | acknowledged commit => exact .inr ⟨before, commit, m, rfl⟩

/-- Without leading writes the state below is what was there before. Otherwise an acknowledged
    write left it, without the mark. -/
theorem beneath_cases (q : WriteQueue) (key : DocumentKey) (base : Option Document) :
    q.leading key = [] ∨ (q.beneath key base).any (·.hasLocalWrites) = false := by
  refine (q.leading_cases key).imp_right ?_
  rintro ⟨before, commit, m, front⟩
  rw [beneath, front, List.foldl_append]
  exact WriteStatus.clean_lay commit m _

/-- The overlay lays the trailing writes last. -/
theorem overlay_eq_trailing (q : WriteQueue) (key : DocumentKey) (base : Option Document) :
    q.overlay key base =
      (q.trailing key).foldl (fun d write => write.1.lay d write.2) (q.beneath key base) := by
  rw [overlay_eq_foldl, beneath, ← List.foldl_append, leading_append_trailing]

/-- In order, no pending write is among the leading ones: the last of these is acknowledged. -/
theorem OrderedOn.mem_trailing {q : WriteQueue} {key : DocumentKey} (ordered : q.OrderedOn key)
    {write : MarkedWrite} (member : write ∈ q.writesOn key) (pending : write.1 = .pending) :
    write ∈ q.trailing key := by
  rw [OrderedOn, ← leading_append_trailing, List.pairwise_append] at ordered
  rw [← leading_append_trailing] at member
  refine (List.mem_append.mp member).resolve_left fun early => ?_
  rcases q.leading_cases key with none_there | ⟨before, commit, m, front⟩
  · exact absurd early (none_there ▸ List.not_mem_nil)
  · have first := ordered.1
    rw [front] at early first
    rcases List.mem_append.mp early with passed | last
    · have late := (List.pairwise_append.mp first).2.2 write passed _ List.mem_cons_self pending
      cases late
    · rw [List.mem_singleton.mp last] at pending
      cases pending

/-- A queued batch is laid over a key with its writes to it. -/
theorem mem_writesOn {q : WriteQueue} {w : QueuedWrite} {m : Mutation} (queued : w ∈ q.entries)
    (member : m ∈ w.batch.mutations) : (w.status, m) ∈ q.writesOn m.key := by
  refine List.mem_flatMap.mpr ⟨w, queued, List.mem_map.mpr ⟨m, ?_, rfl⟩⟩
  exact List.mem_filter.mpr ⟨member, beq_self_eq_true m.key⟩

/-- What a pending batch that replaces or deletes a document makes of it, in every queue and over
    every state. The document is known. It is marked exactly if a pending write behind the last
    acknowledged one does something, so in any case where no acknowledged write stands behind a
    pending one. -/
theorem pending_overwrite_marks (q : WriteQueue) (base : Option Document) (w : QueuedWrite)
    (m : Mutation) (queued : w ∈ q.entries) (pending : w.status = .pending)
    (member : m ∈ w.batch.mutations) (overwrites : m.kind ≠ .patch) :
    ∃ d, q.overlay m.key base = some d ∧
      (d.hasLocalWrites = true ↔ q.MarksOn m.key base) ∧
      (q.OrderedOn m.key → d.hasLocalWrites = true) := by
  have written : (.pending, m) ∈ q.writesOn m.key := pending ▸ mem_writesOn queued member
  have known : (q.overlay m.key base).isSome := by
    rw [overlay_eq_foldl]
    exact MarkedWrite.isSome_foldl written rfl overwrites base
  obtain ⟨d, laid⟩ := Option.isSome_iff_exists.mp known
  have marked : d.hasLocalWrites = true ↔ q.MarksOn m.key base := by
    have undecided : ∀ write ∈ q.trailing m.key, write.1 = .pending :=
      fun _ => pending_of_mem_trailing
    have last := MarkedWrite.marked_foldl_pending undecided (q.beneath m.key base)
    rw [← overlay_eq_trailing, laid, Option.any_some] at last
    rw [last, MarksOn, or_iff_right_of_imp]
    intro mark
    rcases q.beneath_cases m.key base with none_there | clean
    · refine ⟨(.pending, m), ?_, .inl overwrites⟩
      rwa [← leading_append_trailing, none_there, List.nil_append] at written
    · exact absurd mark (by simp [clean])
  exact ⟨d, laid, marked, fun ordered =>
    marked.mpr ⟨(.pending, m), ordered.mem_trailing written rfl, .inl overwrites⟩⟩

/-- An acknowledged patch stands behind a pending replacement, but a pending patch behind both sets
    the mark again: the document that it patches exists. -/
theorem pending_overwrite_marked_again :
    let key : DocumentKey := ⟨"c/a"⟩
    let first : QueuedWrite := { batch := ⟨⟨1⟩, [.set key ∅]⟩ }
    let q : WriteQueue := ⟨[first,
      { batch := ⟨⟨2⟩, [.patch key ∅]⟩, status := .acknowledged ⟨5⟩ },
      { batch := ⟨⟨3⟩, [.patch key ∅]⟩ }], 4⟩
    first ∈ q.entries ∧ first.status = .pending ∧ .set key ∅ ∈ first.batch.mutations ∧
      (Mutation.set key ∅).kind ≠ .patch ∧ q.MarksOn key none ∧
      ∃ d, q.overlay key none = some d ∧ d.hasLocalWrites = true := by
  intro key first q
  have queued : first ∈ q.entries := List.mem_cons_self
  have member : .set key ∅ ∈ first.batch.mutations := List.mem_cons_self
  have marks : q.MarksOn key none := ⟨(.pending, .patch key ∅), List.mem_cons_self, .inr rfl⟩
  obtain ⟨d, laid, marked, -⟩ :=
    pending_overwrite_marks q none first (.set key ∅) queued rfl member nofun
  exact ⟨queued, rfl, member, nofun, marks, d, laid, marked.mpr marks⟩

/-- Two batches to one document, the second of which is acknowledged first. The replacement still
    waits for the server, but the document is shown without the mark. -/
theorem pending_replacement_unmarked :
    let key : DocumentKey := ⟨"c/a"⟩
    let first := ({} : WriteQueue).append [.set key ∅]
    let second := first.2.append [.patch key ∅]
    ∃ batch q, second.2.acknowledge? second.1.id ⟨5⟩ = some (batch, q) ∧
      (∃ w ∈ q.entries, w.status = .pending ∧
        ∃ m ∈ w.batch.mutations, m.key = key ∧ m.kind ≠ .patch) ∧
      (q.overlay key none).map (·.hasLocalWrites) = some false := by
  intro key first second
  refine ⟨second.1, _, rfl, ⟨{ batch := first.1 }, List.mem_cons_self, rfl, ?_⟩, rfl⟩
  exact ⟨.set key ∅, List.mem_cons_self, rfl, nofun⟩

end WriteQueue

end LiveQuery
