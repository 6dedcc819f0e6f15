import LiveQuery.Engine.State

/-!
# Mail

What the application holds of an engine: for each listener a receiver, in which
its events wait to be read, and for each submitted batch a handle, which is
decided once.
-/

namespace LiveQuery

open Std

/-- The end of a listener's line. -/
structure Receiver where
  /-- Events that are not read yet, oldest first. -/
  unread : List ListenEvent := []
  /-- Whether the engine has let go of the line. -/
  ended : Bool := false

/-- The end of a batch. Once its result is taken, nothing is left in it. -/
inductive Handle where
  | waiting
  | decided (result : Except Fault Version)
  | spent

/-- What a reader finds in a receiver. -/
inductive Notice where
  | event (event : ListenEvent)
  /-- Nothing will follow. -/
  | ended

/-- What reading all the mail brings, by listener and by batch. -/
structure MailReport where
  events : List (ListenerId × Notice) := []
  writes : List (BatchId × Except Fault Version) := []

/-- All receivers and handles that the application holds. -/
structure Mailbox where
  receivers : ExtTreeMap ListenerId Receiver := ∅
  handles : ExtTreeMap BatchId Handle := ∅

namespace Receiver

/-- What waits to be read: the events, and after them the end of the line, if it has come. -/
def notices (r : Receiver) : List Notice :=
  r.unread.map .event ++ if r.ended then [.ended] else []

/-- The receiver after all was read. Once its end is read there is no use for it. -/
def emptied? (r : Receiver) : Option Receiver :=
  if r.ended then none else some { r with unread := [] }

end Receiver

namespace Handle

/-- The result, if there is one now. A handle whose result is taken reports that nothing more
    will come. -/
def poll : Handle → Option (Except Fault Version)
  | .waiting => none
  | .decided result => some result
  | .spent => some (.error .shutdown)

/-- The handle after it was polled. -/
def polled : Handle → Handle
  | .waiting => .waiting
  | _ => .spent

/-- A handle is decided once. -/
def settle (result : Except Fault Version) : Handle → Handle
  | .waiting => .decided result
  | other => other

end Handle

namespace Mailbox

/-- A receiver for a new listener. An old one with the same number is lost. -/
def addReceiver (m : Mailbox) (id : ListenerId) : Mailbox :=
  { m with receivers := m.receivers.insert id {} }

/-- A handle for a new batch. An old one with the same number is lost. -/
def addHandle (m : Mailbox) (id : BatchId) : Mailbox :=
  { m with handles := m.handles.insert id .waiting }

/-- Puts an event into its receiver. Without one it is lost. -/
def post (m : Mailbox) (mail : ListenerId × ListenEvent) : Mailbox :=
  let put (r : Receiver) : Receiver := { r with unread := r.unread ++ [mail.2] }
  { m with receivers := m.receivers.modify mail.1 put }

/-- Puts a decision into its handle. -/
def postDecision (m : Mailbox) (mail : BatchId × WriteOutcome) : Mailbox :=
  { m with handles := m.handles.modify mail.1 (·.settle (mail.2.result mail.1)) }

/-- Takes all mail out of an engine. The lines of listeners that the engine does not have any more
    are at their end. -/
def fetch (m : Mailbox) (e : Engine) : Mailbox × Engine :=
  let m := e.decisions.foldl postDecision (e.deliveries.foldl post m)
  ({ m with receivers := m.receivers.map fun id r =>
      { r with ended := r.ended || !e.listeners.contains id } },
    { e with deliveries := [], decisions := [] })

/-- The engine is gone: every line is at its end, and what was not decided never will be. -/
def hangUp (m : Mailbox) : Mailbox where
  receivers := m.receivers.map fun _ r => { r with ended := true }
  handles := m.handles.map fun _ h => h.settle (.error .shutdown)

/-- The handles with a result that nobody has taken. -/
def decided (m : Mailbox) : List (BatchId × Except Fault Version) :=
  m.handles.toList.filterMap fun (id, handle) =>
    match handle with
    | .decided result => some (id, result)
    | _ => none

/-- Reads everything. A receiver whose end was read is dropped: its end is read once, and it gets
    no mail of a later engine that gives its number to another listener. -/
def read (m : Mailbox) : MailReport × Mailbox :=
  let events := m.receivers.toList.flatMap fun (id, r) => r.notices.map (id, ·)
  ({ events, writes := m.decided },
    { receivers := m.receivers.filterMap fun _ r => r.emptied?
      handles := m.handles.map fun _ h => h.polled })

/-- Reads the events of one listener. -/
def take (m : Mailbox) (id : ListenerId) : List ListenEvent × Mailbox :=
  ((m.receivers[id]?.map (·.unread)).getD [],
    { m with receivers := m.receivers.modify id fun r => { r with unread := [] } })

/-- Polls a handle, if it is there. -/
def poll? (m : Mailbox) (id : BatchId) : Option (Option (Except Fault Version) × Mailbox) :=
  m.handles[id]?.map fun handle =>
    (handle.poll, { m with handles := m.handles.insert id handle.polled })

/-- Drops a receiver, and tells whether it was there. -/
def dropReceiver (m : Mailbox) (id : ListenerId) : Bool × Mailbox :=
  (m.receivers.contains id, { m with receivers := m.receivers.erase id })

/-- Drops a handle, and tells whether it was there. -/
def dropHandle (m : Mailbox) (id : BatchId) : Bool × Mailbox :=
  (m.handles.contains id, { m with handles := m.handles.erase id })

end Mailbox

end LiveQuery
