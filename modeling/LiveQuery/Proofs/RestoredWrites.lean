import LiveQuery.Proofs.DecidedWrites

/-!
# Pending writes survive a restart

Whatever an engine has been through, its store lists what is pending in its
queue. An engine that is made over the store therefore begins with the same
batches in the same order, and gives the next numbers after theirs. Its own
tenure leaves a store of the same kind behind, so this holds for one restart
after the other.
-/

namespace LiveQuery

open Std

/-- A session can be made over a store that can be read. -/
theorem Session.boot_of_readable (config : Config) {store : Store}
    (loads : StoreCall.loadPending ∉ store.failing) :
    ∃ e, Engine.ofStore config store = .ok e ∧
      Session.boot config store = (.ok (), { config, host := .running e }) := by
  have works : store.failing.contains .loadPending = false := by simpa using loads
  have loaded : store.loadPending = .ok store.undecided := by
    rw [Store.loadPending, Store.attempt, works]
    rfl
  have read : Engine.ofStore config store = .ok
      { config, store, stream := .ofConfig config.backoff
        queue := .ofBatches store.undecided } := by
    rw [Engine.ofStore, loaded]
    rfl
  exact ⟨_, read, by rw [Session.boot, read]⟩

/-- At any time in a tenure the store can take the place of the one that the engine found. -/
theorem Tenure.leaves {store : Store} {accepted kept : List BatchId} {s : Session} {e : Engine}
    (keyed : store.Keyed) (records : StoreCall.saveOutcome ∉ store.failing)
    (tenure : Tenure store accepted kept s) (running : s.host = .running e) :
    e.store.Keyed ∧ StoreCall.saveOutcome ∉ e.store.failing ∧
      e.store.undecided = e.queue.pending := by
  obtain ⟨other, recorded, same, balanced, -⟩ := tenure.accounts keyed records
  obtain rfl := Host.running.inj (running.symm.trans same)
  exact ⟨balanced.keyed, balanced.records, balanced.undecided_eq⟩

/-- An engine that is made over the store of another one, at any time in the other's tenure, has the
    same batches pending in the same order, and none of them counts as sent. Whatever it goes
    through, the next batch that it queues gets a greater number than all of these, and so did
    every batch that it accepted. In 64 bits that is so until the numbers run out, and
    `Engine.numbers_fit` says when they do not. -/
theorem pending_writes_survive {store : Store} {accepted kept : List BatchId} {s : Session}
    {e : Engine} (keyed : store.Keyed) (records : StoreCall.saveOutcome ∉ store.failing)
    (tenure : Tenure store accepted kept s) (running : s.host = .running e)
    (loads : StoreCall.loadPending ∉ e.store.failing) (config : Config) :
    ∃ restarted, Session.boot config e.store = (.ok (), { config, host := .running restarted }) ∧
      restarted.queue.entries = (e.queue.pending.map fun batch => ⟨batch, .pending, false⟩) ∧
      ∀ {accepted kept : List BatchId} {s : Session} {later : Engine},
        Tenure e.store accepted kept s → s.host = .running later →
        ∀ batch ∈ e.queue.pending, (∀ id ∈ accepted, batch.id.val < id.val) ∧
          ∀ mutations, batch.id.val < (later.queue.append mutations).1.id.val := by
  obtain ⟨keyed, records, listed⟩ := tenure.leaves keyed records running
  obtain ⟨restarted, read, booted⟩ := Session.boot_of_readable config loads
  refine ⟨restarted, booted, ?_, ?_⟩
  · rw [Engine.ofStore_undecided read,
      WriteQueue.entries_ofBatches (Store.ordered_undecided keyed), listed]
  · intro accepted kept s later tenure running batch pending
    obtain ⟨other, recorded, same, balanced, -⟩ := tenure.accounts keyed records
    obtain rfl := Host.running.inj (running.symm.trans same)
    have stored : batch.id ∈ e.store.pending := by
      rw [← listed, Store.mem_undecided keyed] at pending
      exact mem_iff_entry.mpr ⟨batch, pending⟩
    exact ⟨fun id taken => balanced.newer id taken batch.id stored,
      fun _ => balanced.issued batch.id (.inl stored)⟩

/-- The batch that was left behind is acknowledged while two more are pending. Only these two
    survive the restart, and later ones come after them. -/
theorem two_survive :
    ∃ (s : Session) (e restarted : Engine), Tenure leftStore [⟨5⟩, ⟨4⟩] [⟨5⟩, ⟨4⟩] s ∧
      s.host = .running e ∧ e.queue.pending.map (·.id) = [⟨4⟩, ⟨5⟩] ∧
      Session.boot {} e.store = (.ok (), { config := {}, host := .running restarted }) ∧
      restarted.queue.entries = (e.queue.pending.map fun batch => ⟨batch, .pending, false⟩) ∧
      ∀ {accepted kept : List BatchId} {s : Session} {later : Engine},
        Tenure e.store accepted kept s → s.host = .running later →
        ∀ batch ∈ e.queue.pending, (∀ id ∈ accepted, batch.id.val < id.val) ∧
          ∀ mutations, batch.id.val < (later.queue.append mutations).1.id.val := by
  have start : Tenure leftStore [] [] (Session.boot {} leftStore).2 := .start rfl
  have first := start.perform (.submit [.delete ⟨"c/b"⟩]) rfl
  have second := first.perform (.submit [.delete ⟨"c/c"⟩]) rfl
  have acknowledged : Tenure leftStore [⟨5⟩, ⟨4⟩] [⟨5⟩, ⟨4⟩] _ :=
    second.perform (.handle (.writeAcked ⟨3⟩ ⟨7⟩) .zero) rfl
  obtain ⟨restarted, booted, survive, later⟩ := pending_writes_survive keyed_leftStore
    List.not_mem_nil acknowledged rfl List.not_mem_nil {}
  exact ⟨_, _, restarted, acknowledged, rfl, rfl, booted, survive, later⟩

end LiveQuery
