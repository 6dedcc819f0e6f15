import LiveQuery.Proofs.RepeatedOpenings

/-!
# Shared editions

Before two results are compared, the engine looks whether the listener was shown the very same
edition of the documents under the same flags, and then spares the comparison. An engine that
always compares does the same in every run.

To say so, every call is taken with the rule for what to tell a listener left open. With the
rule of the engine it is the call of the engine. The rule that always compares answers alike
for every listener whose edition stands for the documents that it was shown, and in an engine
that comes about every edition does.
-/

namespace LiveQuery

open Std

/-- What to tell a listener of a view, if there is something to tell. -/
abbrev TellingRule := Listener → View → Flags → Option ViewSnapshot

namespace Listener

/-- The next snapshot for a listener of a view by comparison alone, whatever editions say. -/
def compared? (l : Listener) (v : View) (flags : Flags) : Option ViewSnapshot :=
  if !v.replicas.shown.initialized then none
  else
    let changes := v.target.changes (l.baseline v.target) v.result
    if changes.isEmpty && l.seen.any (·.2 == flags) then none
    else some ⟨v.target, v.target.sorted v.result, changes, flags⟩

/-- The edition that a listener was shown last tells whether it saw the documents of the view. -/
def Trusts (l : Listener) (v : View) : Prop :=
  ∀ r flags, l.seen = some (r, flags) → r.shares v.replicas.shown = true →
    r.documents = v.replicas.shown.documents

variable {l : Listener} {v : View}

/-- The engine looks at editions first, and then compares. -/
theorem next?_eq (l : Listener) (v : View) (flags : Flags) :
    l.next? v flags = if l.hasSeen v.replicas.shown flags then none else l.compared? v flags := by
  unfold next? compared?
  cases l.hasSeen v.replicas.shown flags <;> rfl

/-- A comparison with what was seen already has nothing to tell. -/
theorem Trusts.compared? (trusts : l.Trusts v) {flags : Flags}
    (seen : l.hasSeen v.replicas.shown flags = true) : l.compared? v flags = none := by
  obtain ⟨⟨r, last⟩, entered, alike⟩ := (Option.any_eq_true _ _).mp seen
  simp only [Bool.and_eq_true, beq_iff_eq] at alike
  obtain ⟨⟨shares, initialized⟩, rfl⟩ := alike
  have documents : r.documents = v.replicas.shown.documents := trusts r last entered shares
  have baseline : l.baseline v.target = v.result := by
    simp only [Listener.baseline, entered, Option.elim_some, View.result, Replica.result,
      documents, initialized]
  have unchanged : v.target.changes (l.baseline v.target) v.result = [] := by
    rw [baseline]
    exact v.target.changes_eq_nil_of_agrees (.refl _)
  simp [Listener.compared?, unchanged, entered]

theorem Trusts.next?_eq (trusts : l.Trusts v) (flags : Flags) :
    l.compared? v flags = l.next? v flags := by
  rw [Listener.next?_eq]
  split
  case isTrue seen => exact trusts.compared? seen
  case isFalse => rfl

theorem trusts_shown (l : Listener) (v : View) (flags : Flags) : (l.shown v flags).Trusts v := by
  rintro r last seen -
  obtain ⟨rfl, -⟩ := Prod.mk.inj (Option.some.inj seen)
  rfl

end Listener

namespace Engine

section Rule

variable (rule : TellingRule)

/-- Lays a view before a listener under a rule. This function and those that follow are the ones
    of their names with the rule left open. -/
def informBy (e : Engine) (view : View) (flags : Flags) (id : ListenerId) : Engine :=
  match e.listeners[id]? with
  | none => e
  | some listener =>
    match rule listener view flags with
    | none => e
    | some snapshot =>
      let emitted := if listener.attached then 1 else 0
      { e with
        listeners := e.listeners.insert id (listener.shown view flags)
        stats := { e.stats with eventsEmitted := e.stats.eventsEmitted + emitted }
      }.deliver id listener (.ok snapshot)

def dispatchBy (e : Engine) (id : TargetId) : Engine :=
  match e.views[id]? with
  | none => e
  | some view => view.listeners.toList.foldl (informBy rule · view (e.flagsOf id view)) e

def dispatchAllBy (e : Engine) : Engine := e.views.keys.foldl (dispatchBy rule) e

def recomputeBy (e : Engine) (id : TargetId) : Engine :=
  match e.views[id]? with
  | none => e
  | some view => (e.overlay id view).dispatchBy rule id

def refreshBy (e : Engine) (batches : List MutationBatch) : Engine :=
  (e.touchedBy batches).foldl (recomputeBy rule) e

def listenBy (e : Engine) (t : Target) : ListenerId × Engine :=
  let (id, stream) := e.stream.listen t
  let (listener, e) := ({ e with stream }.ensureView id t).attach id
  (listener, e.dispatchBy rule id)

def submitBy (e : Engine) (mutations : List Mutation) : Engine × Except Fault BatchId :=
  let (batch, queue) := e.queue.append mutations
  match e.store.saveWrite batch with
  | .error fault =>
    ({ e with queue := (queue.reject? batch.id).elim queue (·.2) }, .error fault)
  | .ok store =>
    let stats := { e.stats with writesSubmitted := e.stats.writesSubmitted + 1 }
    let e := { e with queue, store, stats, awaited := e.awaited.insert batch.id }
    (e.refreshBy rule [batch], .ok batch.id)

def acknowledgeBy (e : Engine) (id : BatchId) (commit : Version) : Engine :=
  match e.queue.acknowledge? id commit with
  | none => e
  | some (batch, queue) =>
    let stats := { e.stats with writesAcknowledged := e.stats.writesAcknowledged + 1 }
    let e := { e with queue, stats }.decide id (.acknowledged commit)
    let (released, queue) := e.queue.release e.lastSnapshot
    { e with queue }.refreshBy rule (released ++ [batch])

def rejectBy (e : Engine) (id : BatchId) (status : Status) : Engine :=
  match e.queue.reject? id with
  | none => e
  | some (batch, queue) =>
    let stats := { e.stats with writesRejected := e.stats.writesRejected + 1 }
    ({ e with queue, stats }.decide id (.rejected status)).refreshBy rule [batch]

def applyRemoteBy (e : Engine) (event : RemoteEvent) : Except Fault Engine :=
  match e.viewless? event with
  | some id => .error (.internal s!"remote event for {id.text} without a view")
  | none =>
    let e := event.affected.toList.foldl (absorb event) e
    let (released, queue) := e.queue.release event.version
    let e := { e with queue, lastSnapshot := e.lastSnapshot.later event.version }
    let affected := event.affected.insertMany (e.touchedBy released)
    let e := affected.toList.foldl (fun e id => (e.recomputeBy rule id).saveView id) e
    .ok { e with stats := { e.stats with snapshotsApplied := e.stats.snapshotsApplied + 1 } }

def resyncBy (e : Engine) : Engine := (e.startedOver.dispatchAllBy rule).prune

def receiveBy (e : Engine) (change : WatchChange) : Engine :=
  if e.stream.state ≠ .opened then e
  else
    let (stream, result) := e.stream.receive change
    let e := { e with stream }
    (match result with
      | .ok .collected => e
      | .ok (.snapshot event) =>
        match e.applyRemoteBy rule event with
        | .ok e => e
        | .error _ => e.resyncBy rule
      | .ok (.rejected rejections) => e.rejectTargets rejections
      | .error _ => e.resyncBy rule).prune

def streamClosedBy (e : Engine) (error : Option StreamError) (now : Duration) : Wait × Engine :=
  let (rejections, stream) := e.stream.closed error now
  let stats := { e.stats with streamRestarts := e.stats.streamRestarts + 1 }
  let e := { e with stream, stats, queue := e.queue.markAllUnsent }
  (stream.backoff.currentWait, ((e.rejectTargets rejections).dispatchAllBy rule).prune)

def disconnectBy (e : Engine) : Engine :=
  if e.stream.state.isStarted then
    ({ e with
      stream := e.stream.disconnect, queue := e.queue.markAllUnsent }.dispatchAllBy rule).prune
  else e

def interruptBy (e : Engine) : Engine :=
  if e.enabled then { e with enabled := false }.disconnectBy rule else e

def handleBy (e : Engine) (event : StreamEvent) (now : Duration) : Option Wait × Engine :=
  match event with
  | .opened => (none, e.streamOpened now)
  | .watch change => (none, e.receiveBy rule change)
  | .writeAcked batch commit => (none, e.acknowledgeBy rule batch commit)
  | .writeRejected batch status => (none, e.rejectBy rule batch status)
  | .closed error =>
    let (wait, e) := e.streamClosedBy rule error now
    (some wait, e)

/-- A call under a rule. The other calls tell no listener of a view. -/
def performBy (e : Engine) : Action → Reply × Engine
  | .handle event now =>
    let (wait, e) := e.handleBy rule event now
    (.wait wait, e)
  | .listen target =>
    let (id, e) := e.listenBy rule target
    (.listener id, e)
  | .submit mutations =>
    match e.submitBy rule mutations with
    | (e, .ok id) => (.batch id, e)
    | (e, .error fault) => (.refused fault, e)
  | .applyRemote event => e.orRefuse (e.applyRemoteBy rule event)
  | .interrupt => (.done, e.interruptBy rule)
  | .disconnect => (.done, e.disconnectBy rule)
  | .resync => (.done, e.resyncBy rule)
  | action => e.perform action

/-- The engine under a rule after something befell it. -/
def meetBy (e : Engine) : Happening → Engine
  | .call action => (e.performBy rule action).2
  | happening => e.meet happening

def meetAllBy (e : Engine) (happenings : List Happening) : Engine :=
  happenings.foldl (meetBy rule) e

end Rule

/-- Under its own rule the engine is what it is. -/
theorem performBy_next? (e : Engine) (action : Action) :
    e.performBy Listener.next? action = e.perform action := by
  cases action with
  | handle event now => cases event <;> rfl
  | connect | listen | unlisten | submit | takeOutbound | applyRemote | interrupt | resume
  | disconnect | resync | takeRestart => rfl

/-- The editions of an engine stand for its documents. -/
abbrev Editioned (e : Engine) : Prop := Editions e.Holds e.nextEdition

/-- All listeners can trust the edition of a view. -/
def Trusts (e : Engine) (v : View) : Prop :=
  ∀ (id : ListenerId) l, e.listeners[id]? = some l → l.Trusts v

variable {e : Engine}

theorem Trusts.informBy {v : View} (trusts : e.Trusts v) (flags : Flags) (id : ListenerId) :
    e.informBy Listener.compared? v flags id = e.inform v flags id := by
  cases entered : e.listeners[id]? with
  | none => rw [Engine.informBy, Engine.inform, entered]
  | some l =>
    have same := (trusts id l entered).next?_eq flags
    cases told : l.next? v flags <;>
      simp only [Engine.informBy, Engine.inform, entered, same, told]

/-- A listener that is told was shown the edition of the view. -/
theorem Trusts.inform {v : View} (trusts : e.Trusts v) (flags : Flags) (id : ListenerId) :
    (e.inform v flags id).Trusts v := by
  intro other l entered
  have entry := congrArg Line.entry (e.line_inform v flags id other)
  rw [apply_ite Line.entry, Line.entry_inform] at entry
  have entry := entry.symm.trans entered
  split at entry
  case isTrue =>
    obtain ⟨old, before, rfl⟩ := Option.map_eq_some_iff.mp entry
    unfold Listener.after
    split
    case isTrue => exact old.trusts_shown v flags
    case isFalse => exact trusts other old before
  case isFalse => exact trusts other l entry

/-- Steps that agree wherever a law holds agree one after the other, if each step keeps the law. -/
theorem foldl_agree {α : Type} (law : Engine → Prop) {step other : Engine → α → Engine}
    (agree : ∀ e a, law e → other e a = step e a) (keeps : ∀ e a, law e → law (step e a))
    (steps : List α) (holds : law e) : steps.foldl other e = steps.foldl step e := by
  induction steps generalizing e with
  | nil => rfl
  | cons a rest ih =>
    rw [List.foldl_cons, List.foldl_cons, agree e a holds]
    exact ih (keeps e a holds)

theorem dispatchBy_compared (editions : e.Editioned) (id : TargetId) :
    e.dispatchBy Listener.compared? id = e.dispatch id := by
  cases viewed : e.views[id]? with
  | none => rw [dispatchBy, dispatch, viewed]
  | some v =>
    rw [dispatchBy, dispatch, viewed]
    have trusts : e.Trusts v := fun other l entered r flags seen shares =>
      editions.alike r v.replicas.shown (.inr ⟨other, l, flags, entered, seen⟩)
        (holds_shown viewed) (beq_iff_eq.mp shares)
    exact foldl_agree (·.Trusts v) (fun _ id trusts => trusts.informBy _ id)
      (fun _ id trusts => trusts.inform _ id) _ trusts

theorem dispatchAllBy_compared (editions : e.Editioned) :
    e.dispatchAllBy Listener.compared? = e.dispatchAll :=
  foldl_agree Editioned (fun _ id editions => dispatchBy_compared editions id)
    (fun _ id editions => editions_dispatch editions id) _ editions

theorem recomputeBy_compared (editions : e.Editioned) (id : TargetId) :
    e.recomputeBy Listener.compared? id = e.recompute id := by
  cases viewed : e.views[id]? with
  | none => rw [recomputeBy, recompute, viewed]
  | some v =>
    rw [recomputeBy, recompute, viewed]
    exact dispatchBy_compared (editions_overlay editions viewed) id

theorem refreshBy_compared (editions : e.Editioned) (batches : List MutationBatch) :
    e.refreshBy Listener.compared? batches = e.refresh batches :=
  foldl_agree Editioned (fun _ id editions => recomputeBy_compared editions id)
    (fun _ id editions => editions_recompute editions id) _ editions

section Calls

variable (settled : e.Settled)
include settled

theorem listenBy_compared (t : Target) : e.listenBy Listener.compared? t = e.listen t := by
  have subscribed : Settled { e with stream := (e.stream.listen t).2 } := settled.aside (.edit ..)
  have made := (subscribed.ensureView (e.stream.listen t).1 t).editions
  exact Prod.ext rfl (dispatchBy_compared (editions_attach made _) _)

theorem submitBy_compared (mutations : List Mutation) :
    e.submitBy Listener.compared? mutations = e.submit mutations := by
  cases saved : e.store.saveWrite (e.queue.append mutations).1 with
  | error => simp only [submitBy, submit, saved]
  | ok store =>
    simp only [submitBy, submit, saved]
    rw [refreshBy_compared]
    exact editions_of_same settled.editions rfl rfl rfl

theorem acknowledgeBy_compared (id : BatchId) (commit : Version) :
    e.acknowledgeBy Listener.compared? id commit = e.acknowledge id commit := by
  cases done : e.queue.acknowledge? id commit with
  | none => simp only [acknowledgeBy, acknowledge, done]
  | some decision =>
    simp only [acknowledgeBy, acknowledge, done]
    have decided := sameBooks_decide { e with
      queue := decision.2
      stats := { e.stats with writesAcknowledged := e.stats.writesAcknowledged + 1 } } id
      (.acknowledged commit)
    rw [refreshBy_compared]
    exact editions_of_same settled.editions decided.views decided.listeners decided.nextEdition

theorem rejectBy_compared (id : BatchId) (status : Status) :
    e.rejectBy Listener.compared? id status = e.reject id status := by
  cases done : e.queue.reject? id with
  | none => simp only [rejectBy, reject, done]
  | some decision =>
    simp only [rejectBy, reject, done]
    have decided := sameBooks_decide { e with
      queue := decision.2
      stats := { e.stats with writesRejected := e.stats.writesRejected + 1 } } id
      (.rejected status)
    rw [refreshBy_compared]
    exact editions_of_same settled.editions decided.views decided.listeners decided.nextEdition

theorem applyRemoteBy_compared (event : RemoteEvent) :
    e.applyRemoteBy Listener.compared? event = e.applyRemote event := by
  cases complete : e.viewless? event with
  | some id => simp only [applyRemoteBy, applyRemote, complete]
  | none =>
    have taken := (settled.absorbAll event event.affected.toList).editions
    have agree (e : Engine) (id : TargetId) (editions : e.Editioned) :
        (e.recomputeBy Listener.compared? id).saveView id = (e.recompute id).saveView id := by
      rw [recomputeBy_compared editions id]
    have keeps (e : Engine) (id : TargetId) (editions : e.Editioned) :
        ((e.recompute id).saveView id).Editioned :=
      have saved := sameBooks_saveView (e.recompute id) id
      editions_of_same (editions_recompute editions id) saved.views saved.listeners
        saved.nextEdition
    simp only [applyRemoteBy, applyRemote, complete]
    rw [foldl_agree Editioned agree keeps]
    exact editions_of_same taken rfl rfl rfl

theorem resyncBy_compared : e.resyncBy Listener.compared? = e.resync := by
  have stopped : e.startedOver.Settled := settled.markAllUnsent.aside (.edit ..)
  rw [resyncBy, resync_eq, dispatchAllBy_compared stopped.editions]

theorem receiveBy_compared (change : WatchChange) :
    e.receiveBy Listener.compared? change = e.receive change := by
  have collected : Settled { e with stream := (e.stream.receive change).1 } :=
    settled.aside (.edit ..)
  have resynced := resyncBy_compared collected
  cases result : (e.stream.receive change).2 with
  | error => simp only [receiveBy, receive, result, resynced]
  | ok outcome =>
    cases outcome with
    | collected | rejected => simp only [receiveBy, receive, result]
    | snapshot event =>
      have same := applyRemoteBy_compared collected event
      cases applied : ({ e with stream := (e.stream.receive change).1 } : Engine).applyRemote event
      <;> simp only [receiveBy, receive, result, same, applied, resynced]

theorem streamClosedBy_compared (error : Option StreamError) (now : Duration) :
    e.streamClosedBy Listener.compared? error now = e.streamClosed error now := by
  have stopped : (e.cutOff error now).Settled := settled.markAllUnsent.aside (.edit ..)
  have rejected := (stopped.rejectTargets (e.stream.closed error now).1).editions
  exact Prod.ext rfl (congrArg prune (dispatchAllBy_compared rejected))

theorem disconnectBy_compared : e.disconnectBy Listener.compared? = e.disconnect := by
  have closed : Settled { e with stream := e.stream.disconnect } := settled.aside (.edit ..)
  rw [disconnectBy, disconnect, dispatchAllBy_compared closed.markAllUnsent.editions]

theorem interruptBy_compared : e.interruptBy Listener.compared? = e.interrupt := by
  have stopped : Settled { e with enabled := false } := settled.aside (.edit ..)
  rw [interruptBy, interrupt, disconnectBy_compared stopped]

theorem performBy_compared (action : Action) :
    e.performBy Listener.compared? action = e.perform action := by
  cases action with
  | handle event now =>
    cases event with
    | opened => rfl
    | watch change =>
      simp only [performBy, handleBy, receiveBy_compared settled, perform, handle]
    | writeAcked id commit =>
      simp only [performBy, handleBy, acknowledgeBy_compared settled, perform, handle]
    | writeRejected id status =>
      simp only [performBy, handleBy, rejectBy_compared settled, perform, handle]
    | closed error =>
      simp only [performBy, handleBy, streamClosedBy_compared settled, perform, handle]
  | listen t => simp only [performBy, listenBy_compared settled, perform]
  | submit mutations =>
    rcases submitted : e.submit mutations with ⟨after, _ | id⟩ <;>
      simp only [performBy, submitBy_compared settled, perform, submitted]
  | applyRemote event => simp only [performBy, applyRemoteBy_compared settled, perform]
  | interrupt => simp only [performBy, interruptBy_compared settled, perform]
  | disconnect => simp only [performBy, disconnectBy_compared settled, perform]
  | resync => simp only [performBy, resyncBy_compared settled, perform]
  | connect | unlisten | takeOutbound | resume | takeRestart => rfl

end Calls

theorem meetBy_compared (reached : e.Reachable) (happening : Happening) :
    e.meetBy Listener.compared? happening = e.meet happening := by
  cases happening with
  | call action => exact congrArg Prod.snd (performBy_compared reached.settled action)
  | detach | restock => rfl

/-- Under the rule of the engine every call is the call of the engine. An engine that always
    compares goes through the same states, whatever befalls it. In each state every call has the
    same reply and the same effect, so every listener is sent the same snapshots, and what is noted
    of it, by which the next snapshot is made, is the same. In each state replicas that share an
    edition hold the same documents. -/
theorem editions_only_spare_comparisons (reached : e.Reachable) (happenings : List Happening) :
    let after := e.meetAll happenings
    e.meetAllBy Listener.compared? happenings = after ∧
      (∀ action, after.performBy Listener.next? action = after.perform action ∧
        after.performBy Listener.compared? action = after.perform action) ∧
      ∀ r s, after.Holds r → after.Holds s → r.shares s = true → r.documents = s.documents := by
  have settled := (reached.meetAll happenings).settled
  refine ⟨?_, fun action => ⟨performBy_next? _ action, performBy_compared settled action⟩,
    fun r s here there shares => settled.editions.alike r s here there (beq_iff_eq.mp shares)⟩
  exact foldl_agree Reachable
    (fun _ happening reached => meetBy_compared reached happening)
    (fun _ happening reached => reached.meetAll [happening]) happenings reached

/-- A document is written that is listened to, and a stream is asked for. -/
def watchedWrite : List Happening :=
  [.call (.listen (.document ⟨"c/a"⟩)), .call (.submit [.set ⟨"c/a"⟩ ∅]), .call .connect]

/-- When the stream is given up, the listener was shown this edition under these flags already. It
    gets no second snapshot, and comparing the two results would give it none. -/
theorem repeated_edition_is_not_told :
    let e := blank.meetAll watchedWrite
    (e.views[(⟨1⟩ : TargetId)]?.any fun v => e.listeners[(⟨1⟩ : ListenerId)]?.any
        fun l => l.hasSeen v.replicas.shown (e.flagsOf ⟨1⟩ v)) = true ∧
      (e.told ⟨1⟩).length = 1 ∧
      blank.meetAllBy Listener.compared? watchedWrite = e ∧
      e.performBy Listener.compared? .disconnect = e.perform .disconnect ∧
      ((e.performBy Listener.compared? .disconnect).2.told ⟨1⟩).length = 1 := by
  intro e
  obtain ⟨same, calls, -⟩ := editions_only_spare_comparisons reachable_blank watchedWrite
  have disconnected := (calls .disconnect).2
  refine ⟨by decide +kernel, by decide +kernel, same, disconnected, ?_⟩
  rw [disconnected]
  decide +kernel

end Engine

end LiveQuery
