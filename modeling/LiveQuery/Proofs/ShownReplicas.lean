import LiveQuery.Proofs.EngineRun

/-!
# What a view shows

A view always shows the server's replica under the queued writes: at a covered
key that is written, the overlay of the server's state, and at every other key
that state itself. The shown replica is kept and not computed when it is asked
for, so this is a law about every step that moves the queue or a server's
replica. A step that does so names the views that lag, and the law is kept of all
the others.
-/

namespace LiveQuery

open Std

namespace WriteQueue

/-- Some queued batch writes the key. -/
def Writes (q : WriteQueue) (key : DocumentKey) : Prop := ∃ w ∈ q.entries, key ∈ w.batch.keys

/-- Some queued batch replaces or deletes the document. -/
def Overwrites (q : WriteQueue) (key : DocumentKey) : Prop :=
  ∃ w ∈ q.entries, ∃ m ∈ w.batch.mutations, m.key = key ∧ (m.kind = .set ∨ m.kind = .delete)

theorem writes_iff (q : WriteQueue) (key : DocumentKey) : q.Writes key ↔ q.writesOn key ≠ [] := by
  rw [writesOn, writesIn, ne_eq, List.flatMap_eq_nil_iff]
  simp [QueuedWrite.writesTo_eq_nil, Writes]

theorem overwrites_iff (q : WriteQueue) (key : DocumentKey) :
    q.Overwrites key ↔ q.overwrites key = true := by
  have replaced (kind : MutationKind) : (kind = .set ∨ kind = .delete) ↔ kind ≠ .patch := by
    cases kind <;> simp
  simp [Overwrites, overwrites, replaced]

/-- A key that is overwritten is written. -/
theorem Overwrites.writes {q : WriteQueue} {key : DocumentKey} (overwritten : q.Overwrites key) :
    q.Writes key := by
  obtain ⟨w, queued, m, member, rfl, _⟩ := overwritten
  exact ⟨w, queued, List.mem_map_of_mem member⟩

/-- Patches leave a document unknown that was unknown. -/
theorem overlay_unknown {q : WriteQueue} {key : DocumentKey} (patched : q.overwrites key = false) :
    q.overlay key none = none := by
  rw [overwrites_eq_any] at patched
  rw [overlay_eq_foldl]
  generalize q.writesOn key = writes at patched
  induction writes with
  | nil => rfl
  | cons write rest ih =>
    obtain ⟨status, m⟩ := write
    simp only [List.any_cons, Bool.or_eq_false_iff, bne_eq_false_iff_eq] at patched
    have idle : status.lay none m = none := by
      cases status <;>
        simp [WriteStatus.lay, Mutation.applyCommitted, Mutation.applyLocal, patched.1]
    rw [List.foldl_cons, idle, ih patched.2]

/-- Laying one key puts its overlay in place. A key that is skipped has nothing to lay: it is
    unknown, and its writes are patches. -/
theorem getElem?_layOver (q : WriteQueue) (server : Replica) {documents : Documents}
    {key : DocumentKey}
    (fits : documents[key]? = server.documents[key]? ∨
      documents[key]? = q.overlay key server.documents[key]?) (other : DocumentKey) :
    (q.layOver server documents key)[other]? =
      if key = other then q.overlay key server.documents[key]? else documents[other]? := by
  unfold layOver
  dsimp only
  split
  case isTrue skipped =>
    simp only [Bool.and_eq_true, Bool.not_eq_true', Option.isNone_iff_eq_none] at skipped
    obtain ⟨⟨unknown, patched⟩, -⟩ := skipped
    rw [unknown, overlay_unknown patched, or_self] at fits
    split
    case isTrue same => rw [← same, fits, unknown, overlay_unknown patched]
    case isFalse => rfl
  case isFalse =>
    cases laid : q.overlay key server.documents[key]? with
    | none => simp [ExtTreeMap.getElem?_erase]
    | some d => simp [ExtTreeMap.getElem?_insert]

/-- Laying the keys one after the other puts the overlay at each of them, whatever their order:
    every overlay starts from the server's replica. -/
theorem getElem?_foldl_layOver (q : WriteQueue) (server : Replica) (keys : List DocumentKey)
    {documents : Documents}
    (fits : ∀ key, documents[key]? = server.documents[key]? ∨
      documents[key]? = q.overlay key server.documents[key]?) (key : DocumentKey) :
    (keys.foldl (q.layOver server) documents)[key]? =
      if key ∈ keys then q.overlay key server.documents[key]? else documents[key]? := by
  induction keys generalizing documents with
  | nil => simp
  | cons first rest ih =>
    have step := q.getElem?_layOver server (fits first)
    rw [List.foldl_cons, ih]
    · rw [step key]
      by_cases later : key ∈ rest
      · simp [later]
      · by_cases same : first = key
        · simp [same]
        · simp [later, same, Ne.symm same]
    · intro other
      rw [step other]
      split
      case isTrue same => exact .inr (same ▸ rfl)
      case isFalse => exact fits other

theorem mem_keysFor (q : WriteQueue) (t : Target) (key : DocumentKey) :
    key ∈ q.keysFor t ↔ q.Writes key ∧ t.covers key := by
  rw [keysFor, List.mem_filter, ExtTreeSet.mem_toList, mem_keys, writes_iff]

end WriteQueue

/-- The shown replica of a target is the server's under the queued writes. -/
structure Replicas.ShowOver (r : Replicas) (t : Target) (q : WriteQueue) : Prop where
  written : ∀ key, t.covers key → q.Writes key →
    r.shown.documents[key]? = q.overlay key r.server.documents[key]?
  untouched : ∀ key, ¬(t.covers key ∧ q.Writes key) →
    r.shown.documents[key]? = r.server.documents[key]?
  /-- A document that is replaced or deleted locally is known without the server. -/
  initialized : r.shown.initialized ↔
    r.server.initialized ∨ ∃ key, t = .document key ∧ q.Overwrites key
  filtered : r.shown.filtered = t.isFiltered

namespace WriteQueue

/-- What is made to be shown is the server's replica under the writes. -/
theorem showOver_shownOver (q : WriteQueue) (t : Target) (server : Replica) (edition : Nat) :
    Replicas.ShowOver ⟨q.shownOver t server edition, server⟩ t q := by
  have known : (∃ key, t = .document key ∧ q.Overwrites key) ↔
      t.isDocument ∧ ∃ key ∈ q.keysFor t, q.overwrites key := by
    constructor
    · rintro ⟨key, rfl, overwritten⟩
      refine ⟨rfl, key, ?_, (q.overwrites_iff key).mp overwritten⟩
      exact (q.mem_keysFor _ key).mpr ⟨overwritten.writes, by simp [Target.covers]⟩
    · rintro ⟨single, key, member, overwritten⟩
      cases t with
      | query => exact absurd single Bool.false_ne_true
      | document own =>
        have same : own = key := by
          simpa [Target.covers] using ((q.mem_keysFor _ key).mp member).2
        exact ⟨own, rfl, same ▸ (q.overwrites_iff key).mpr overwritten⟩
  have listed (key : DocumentKey) : t.covers key ∧ q.Writes key ↔ key ∈ q.keysFor t :=
    and_comm.trans (q.mem_keysFor t key).symm
  have at_key (key : DocumentKey) : (q.shownOver t server edition).documents[key]? =
      if key ∈ q.keysFor t then q.overlay key server.documents[key]?
      else server.documents[key]? := by
    unfold shownOver
    split
    case h_1 none_written => simp [none_written, Replica.withFlags]
    case h_2 => exact q.getElem?_foldl_layOver server _ (fun _ => .inl rfl) key
  constructor
  case written =>
    intro key covered written
    exact (at_key key).trans (if_pos ((listed key).mp ⟨covered, written⟩))
  case untouched =>
    intro key other
    exact (at_key key).trans (if_neg fun member => other ((listed key).mpr member))
  case initialized =>
    rw [known]
    unfold shownOver
    split
    case h_1 none_written => simp [none_written, Replica.withFlags]
    case h_2 => simp [List.any_eq_true]
  case filtered =>
    unfold shownOver
    split <;> rfl

end WriteQueue

/-- Writes to keys that the target does not cover change nothing in what it shows. -/
theorem Replicas.ShowOver.congr {r : Replicas} {t : Target} {q after : WriteQueue}
    (shows : r.ShowOver t q)
    (same : ∀ key, t.covers key → after.writesOn key = q.writesOn key) : r.ShowOver t after := by
  have written (key : DocumentKey) (covered : t.covers key) : after.Writes key ↔ q.Writes key := by
    rw [WriteQueue.writes_iff, WriteQueue.writes_iff, same key covered]
  constructor
  case written =>
    intro key covered writes
    rw [shows.written key covered ((written key covered).mp writes),
      WriteQueue.overlay_eq_foldl, WriteQueue.overlay_eq_foldl, same key covered]
  case untouched =>
    intro key other
    exact shows.untouched key fun ⟨covered, writes⟩ =>
      other ⟨covered, (written key covered).mpr writes⟩
  case initialized =>
    rw [shows.initialized]
    refine or_congr_right (exists_congr fun key => and_congr_right ?_)
    rintro rfl
    rw [WriteQueue.overwrites_iff, WriteQueue.overwrites_iff, WriteQueue.overwrites_eq_any,
      WriteQueue.overwrites_eq_any, same key (by simp [Target.covers])]
  case filtered => exact shows.filtered

namespace Engine

/-- Whatever does not lag shows the server's replica under the queued writes. -/
theorem Passes.shows {lagging : TargetId → Prop} {e : Engine} (passed : Passes lagging e)
    {id : TargetId} {v : View} (viewed : e.views[id]? = some v) (fresh : ¬lagging id) :
    v.replicas.ShowOver v.target e.queue := by
  induction passed generalizing id v with
  | start read =>
    obtain ⟨pending, rfl⟩ := ofStore_eq read
    simp at viewed
  | widen _ wider ih => exact ih viewed fun behind => fresh (wider id behind)
  | aside _ same ih => exact same.queue ▸ ih (same.views ▸ viewed) fresh
  | requeue passed batches numbered others ih =>
    obtain ⟨fresh, untouched⟩ := not_or.mp fresh
    refine (ih viewed fresh).congr fun key covered => others key fun batch member own => ?_
    exact untouched (mem_touchedBy.mpr ⟨v, viewed, batch, member, key, own, covered⟩)
  | absorb _ event other ih =>
    obtain ⟨fresh, differs⟩ := not_or.mp fresh
    rw [views_absorb, getElem?_modify_eq_some] at viewed
    obtain ⟨old, viewed, ⟨rfl, -⟩ | ⟨-, rfl⟩⟩ := viewed
    · exact absurd rfl differs
    · rw [queue_absorb]
      exact ih viewed fresh
  | recompute _ other ih =>
    rw [views_recompute, getElem?_modify_eq_some] at viewed
    rw [queue_recompute]
    obtain ⟨old, viewed, ⟨rfl, rfl⟩ | ⟨differs, rfl⟩⟩ := viewed
    · exact WriteQueue.showOver_shownOver _ _ _ _
    · exact ih viewed fun behind => fresh ⟨behind, differs.symm⟩
  | dispatch _ other ih =>
    rw [(onlyTells_dispatch _ other).views] at viewed
    rw [(onlyTells_dispatch _ other).queue]
    exact ih viewed fresh
  | @ensureView _ e _ other t ih =>
    rcases ensureView_cases e other t with ⟨-, same⟩ | ⟨-, server, -, made⟩
    · rw [same] at viewed ⊢
      exact ih viewed fresh
    · rw [made] at viewed ⊢
      rw [ExtTreeMap.getElem?_insert] at viewed
      split at viewed
      case isTrue =>
        obtain rfl := Option.some.inj viewed
        exact WriteQueue.showOver_shownOver _ _ _ _
      case isFalse => exact ih viewed fresh
  | @join _ e _ other _ ih =>
    rw [(onlyTells_dispatch _ other).views] at viewed
    rw [(onlyTells_dispatch _ other).queue]
    obtain ⟨old, before, edited⟩ := getElem?_modify_eq_some.mp viewed
    have shows := ih before fresh
    obtain ⟨rfl, rfl⟩ | ⟨-, rfl⟩ := edited
    · exact shows
    · exact shows
  | forget _ _ ih =>
    obtain ⟨old, before, edited⟩ := getElem?_modify_eq_some.mp viewed
    have shows := ih before fresh
    obtain ⟨rfl, rfl⟩ | ⟨-, rfl⟩ := edited
    · exact shows
    · exact shows
  | reject _ rejection ih =>
    rw [views_rejectTarget, ExtTreeMap.getElem?_erase] at viewed
    rw [queue_rejectTarget]
    split at viewed
    case isTrue => exact nomatch viewed
    case isFalse => exact ih viewed fresh
  | prune _ ih =>
    rw [Engine.prune, ExtTreeMap.getElem?_filter', Option.filter_eq_some_iff] at viewed
    exact ih viewed.1 fresh
  | detach _ _ ih => exact ih viewed fresh

/-- In every engine that comes about, from any restored queue and after any calls, every view shows
    the server's replica under the queued writes: at each key, in its flags, and also right after a
    batch was refused, rejected or released. -/
theorem shown_is_server_under_writes {e : Engine} (reached : e.Reachable) {id : TargetId} {v : View}
    (viewed : e.views[id]? = some v) : v.replicas.ShowOver v.target e.queue :=
  reached.settled.shows viewed fun impossible => impossible

/-- A document is listened to and then set, all without a stream. -/
def offlineWrite : Engine := blank.run [.listen (.document ⟨"c/a"⟩), .submit [.set ⟨"c/a"⟩ ∅]]

/-- What is set is shown, although the server never reported anything. -/
theorem offline_write_is_shown :
    offlineWrite.Reachable ∧ ∃ v, offlineWrite.views[(⟨1⟩ : TargetId)]? = some v ∧
      (!v.replicas.server.initialized && v.replicas.shown.initialized) ∧
      v.replicas.ShowOver v.target offlineWrite.queue := by
  have reached : offlineWrite.Reachable := reachable_blank.run _
  have present : (offlineWrite.views[(⟨1⟩ : TargetId)]?.any fun v =>
      !v.replicas.server.initialized && v.replicas.shown.initialized) = true := by
    decide +kernel
  obtain ⟨v, viewed, flags⟩ := (Option.any_eq_true _ _).mp present
  exact ⟨reached, v, viewed, flags, shown_is_server_under_writes reached viewed⟩

end Engine

end LiveQuery
