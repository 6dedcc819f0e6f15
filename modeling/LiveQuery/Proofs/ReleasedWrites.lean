import LiveQuery.Proofs.OverlayReplay

/-!
# Releasing writes is not seen

A released batch is one that the server's state contains. As long as that is true
of the state that the queue is laid over, the batch lays nothing: the state bars
it, and so does every state that the acknowledged batches before it leave, as
these only move the version on. Whatever is committed at is of no importance for
the batches that stay. From the first pending batch on nothing is released.
-/

namespace LiveQuery

namespace QueuedWrite

/-- A batch that does not write the key lays nothing over it. -/
theorem layAll_of_untouched {w : QueuedWrite} {key : DocumentKey}
    (untouched : w.batch.touches key = false) (d : Option Document) : w.layAll key d = d := by
  have none_there : w.batch.mutations.filter (·.key == key) = [] := by
    rw [List.filter_eq_nil_iff]
    intro m member
    exact fun here => Bool.false_ne_true
      (untouched.symm.trans (List.any_eq_true.mpr ⟨m, member, here⟩))
  rw [layAll, none_there, List.foldl_nil]

/-- A state of the server at or past the commit bars the whole batch. -/
theorem layAll_of_reached {w : QueuedWrite} {commit : Version}
    (acknowledged : w.status = .acknowledged commit) (key : DocumentKey) {d : Document}
    (clean : d.hasLocalWrites = false) (reached : commit ≤ d.version) :
    w.layAll key (some d) = some d := by
  have barred (m : Mutation) : w.status.lay (some d) m = some d := by
    simp [acknowledged, WriteStatus.lay, clean, reached]
  rw [layAll]
  exact List.foldl_fixed' barred _

/-- What a version has caught up with, a later one has too. -/
theorem isCaughtUpBy_later {w : QueuedWrite} {version later : Version} (le : version ≤ later)
    (caught : w.isCaughtUpBy version = true) : w.isCaughtUpBy later = true := by
  unfold isCaughtUpBy at caught ⊢
  split at caught
  case h_1 => exact caught
  case h_2 =>
    simp only [decide_eq_true_eq] at caught ⊢
    exact Nat.le_trans caught le

/-- An acknowledged write moves a state of the server on, or leaves it. -/
theorem lay_advances (commit : Version) (m : Mutation) {d : Document}
    (clean : d.hasLocalWrites = false) :
    ∃ next, (WriteStatus.acknowledged commit).lay (some d) m = some next ∧
      next.hasLocalWrites = false ∧ d.version ≤ next.version := by
  rw [MarkedWrite.lay_acknowledged commit m (some d) (by simpa using clean)]
  split
  case isTrue due =>
    have past : d.version < commit := by simpa [MarkedWrite.isDue] using due
    have moved := MarkedWrite.version_applyCommitted commit m (some d)
    have known : MarkedWrite.seenAfter ((some d).map (·.version)) commit m = some commit := by
      simp [MarkedWrite.seenAfter]
    obtain ⟨next, written, version⟩ := Option.map_eq_some_iff.mp (moved.trans known)
    refine ⟨next, written, MarkedWrite.clean_applyCommitted commit m (some d) next written, ?_⟩
    exact version ▸ Nat.le_of_lt past
  case isFalse => exact ⟨d, rfl, clean, Nat.le_refl _⟩

/-- An acknowledged batch moves a state of the server on, or leaves it. -/
theorem layAll_advances {w : QueuedWrite} {commit : Version}
    (acknowledged : w.status = .acknowledged commit) (key : DocumentKey) {d : Document}
    (clean : d.hasLocalWrites = false) :
    ∃ next, w.layAll key (some d) = some next ∧ next.hasLocalWrites = false ∧
      d.version ≤ next.version := by
  rw [layAll, acknowledged]
  generalize w.batch.mutations.filter (·.key == key) = mutations
  induction mutations generalizing d with
  | nil => exact ⟨d, rfl, clean, Nat.le_refl _⟩
  | cons m rest ih =>
    obtain ⟨laid, here, clean, later⟩ := lay_advances commit m clean
    obtain ⟨next, there, clean, latest⟩ := ih clean
    refine ⟨next, ?_, clean, Nat.le_trans later latest⟩
    rw [List.foldl_cons, here, there]

end QueuedWrite

namespace WriteQueue

/-- A version has reached the commit of every batch that writes the key and that is released at
    another one. -/
def Contained (entries : List QueuedWrite) (released : Version) (key : DocumentKey)
    (version : Version) : Prop :=
  ∀ w ∈ entries, w.isCaughtUpBy released = true → w.batch.touches key = true →
    w.isCaughtUpBy version = true

/-- Laying what stays is laying everything. Before the first pending batch the state is one of the
    server that contains every batch to be released; from there on no batch is. -/
theorem foldl_released {entries : List QueuedWrite} (ordered : InOrder entries)
    (released : Version) (key : DocumentKey) {d : Document} (clean : d.hasLocalWrites = false)
    (contained : Contained entries released key d.version) :
    (entries.filter fun w => !w.isCaughtUpBy released).foldl (fun d w => w.layAll key d) (some d) =
      entries.foldl (fun d w => w.layAll key d) (some d) := by
  induction entries generalizing d with
  | nil => rfl
  | cons w rest ih =>
    obtain ⟨behind, ordered⟩ := List.pairwise_cons.mp ordered
    obtain ⟨first, contained⟩ := List.forall_mem_cons.mp contained
    cases status : w.status with
    | pending =>
      have all : ∀ other ∈ w :: rest, other.status = .pending :=
        List.forall_mem_cons.mpr ⟨status, fun other member => behind other member status⟩
      have stays : (w :: rest).filter (fun w => !w.isCaughtUpBy released) = w :: rest := by
        rw [List.filter_eq_self]
        intro other member
        simp [QueuedWrite.isCaughtUpBy, all other member]
      rw [stays]
    | acknowledged commit =>
      rw [List.filter_cons, List.foldl_cons]
      cases caught : w.isCaughtUpBy released with
      | true =>
        have idle : w.layAll key (some d) = some d := by
          cases touched : w.batch.touches key with
          | false => exact QueuedWrite.layAll_of_untouched touched (some d)
          | true =>
            refine QueuedWrite.layAll_of_reached status key clean ?_
            simpa [QueuedWrite.isCaughtUpBy, status] using first caught touched
        rw [idle]
        exact ih ordered clean contained
      | false =>
        obtain ⟨next, laid, clean, later⟩ := QueuedWrite.layAll_advances status key clean
        rw [Bool.not_false, if_pos rfl, List.foldl_cons, laid]
        exact ih ordered clean fun other member caught touched =>
          QueuedWrite.isCaughtUpBy_later later (contained other member caught touched)

/-- Releasing the batches that a version has caught up with changes nothing of what the queue shows
    of a document, whether contents, version or mark, as long as the state below is one of the
    server and contains every released batch that writes it. The batches that stay may be committed
    at any version. -/
theorem overlay_released (q : WriteQueue) (version : Version) (key : DocumentKey) (base : Document)
    (ordered : InOrder q.entries) (clean : base.hasLocalWrites = false)
    (contained : Contained q.entries version key base.version) :
    (q.release version).2.overlay key (some base) = q.overlay key (some base) :=
  foldl_released ordered version key clean contained

/-- Behind a batch that is committed past the snapshot two batches to the document and one to
    another document are released. The commit of the last one is past the document below, but it
    does not write that document. -/
theorem overlay_released_behind :
    let key : DocumentKey := ⟨"c/a"⟩
    let base : Document := ⟨key, ⟨6⟩, some ∅, false⟩
    let q : WriteQueue := ⟨[
      { batch := ⟨⟨1⟩, [.set key ∅]⟩, status := .acknowledged ⟨9⟩ },
      { batch := ⟨⟨2⟩, [.delete key]⟩, status := .acknowledged ⟨5⟩ },
      { batch := ⟨⟨3⟩, [.patch key ∅]⟩, status := .acknowledged ⟨4⟩ },
      { batch := ⟨⟨4⟩, [.set ⟨"c/b"⟩ ∅]⟩, status := .acknowledged ⟨7⟩ },
      { batch := ⟨⟨5⟩, [.patch key ∅]⟩ }], 6⟩
    InOrder q.entries ∧ base.hasLocalWrites = false ∧
      Contained q.entries ⟨8⟩ key base.version ∧ (q.release ⟨8⟩).1.map (·.id.val) = [2, 3, 4] ∧
      (q.release ⟨8⟩).2.overlay key (some base) = q.overlay key (some base) := by
  intro key base q
  have ordered : InOrder q.entries := by simp [InOrder, q]
  have contained : Contained q.entries ⟨8⟩ key base.version := by
    simp only [Contained, q, List.forall_mem_cons, List.not_mem_nil, false_imp_iff, implies_true,
      and_true]
    decide
  exact ⟨ordered, rfl, contained, rfl, overlay_released q ⟨8⟩ key base ordered rfl contained⟩

end WriteQueue

end LiveQuery
