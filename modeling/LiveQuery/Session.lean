import LiveQuery.Engine.Action
import LiveQuery.Mailbox

/-!
# Sessions

An application that calls an engine directly and reads its mail. The engine can
be given up and made anew over the same store.
-/

namespace LiveQuery

/-- An engine, or the store that is left where there is none. -/
inductive Host where
  | running (engine : Engine)
  | stopped (store : Store)

namespace Host

def engine? : Host → Option Engine
  | .running engine => some engine
  | .stopped _ => none

def store : Host → Store
  | .running engine => engine.store
  | .stopped store => store

/-- Edits the store in its place. -/
def withStore (f : Store → Store) : Host → Host
  | .running engine => .running { engine with store := f engine.store }
  | .stopped store => .stopped (f store)

end Host

/-- What a caller holds: the settings, the engine or the store that is left without one, and the
    mail. -/
structure Session where
  config : Config
  host : Host
  mail : Mailbox := {}

namespace Session

/-- Makes an engine over a store. If it cannot be made, the store stays. -/
def boot (config : Config) (store : Store) : Except Fault Unit × Session :=
  match Engine.ofStore config store with
  | .ok engine => (.ok (), { config, host := .running engine })
  | .error fault => (.error fault, { config, host := .stopped store })

/-- A session over a new store. -/
def start (config : Config) : Session := (boot config {}).2

/-- Makes one call, if there is an engine. Receivers and handles that come of it are kept. -/
def perform? (s : Session) (action : Engine.Action) : Option (Engine.Reply × Session) :=
  s.host.engine?.map fun engine =>
    let (reply, engine) := engine.perform action
    let mail := match reply with
      | .listener id => s.mail.addReceiver id
      | .batch id => s.mail.addHandle id
      | _ => s.mail
    (reply, { s with host := .running engine, mail })

/-- Puts all mail of the engine into the mailbox. -/
def fetch (s : Session) : Session :=
  match s.host with
  | .running engine =>
    let (mail, engine) := s.mail.fetch engine
    { s with host := .running engine, mail }
  | .stopped _ => s

/-- Reads all mail. -/
def read (s : Session) : MailReport × Session :=
  let s := s.fetch
  let (report, mail) := s.mail.read
  (report, { s with mail })

/-- Gives the engine up, reads what it leaves, forgets all receivers and handles, and makes a new
    engine over the same store. -/
def restart (s : Session) : Except Fault MailReport × Session :=
  let s := s.fetch
  let (result, next) := boot s.config s.host.store
  (result.map fun _ => s.mail.hangUp.read.1, next)

/-- Drops a receiver, and tells whether it was there. The engine then reaches nobody. -/
def dropReceiver (s : Session) (id : ListenerId) : Bool × Session :=
  let (found, mail) := s.mail.dropReceiver id
  let host := match s.host with
    | .running engine => if found then .running (engine.detach id) else s.host
    | .stopped _ => s.host
  (found, { s with mail, host })

/-- Drops a handle, and tells whether it was there. -/
def dropHandle (s : Session) (id : BatchId) : Bool × Session :=
  let (found, mail) := s.mail.dropHandle id
  (found, { s with mail })

/-- Polls a handle, if it is there. -/
def poll? (s : Session) (id : BatchId) : Option (Option (Except Fault Version) × Session) :=
  let s := s.fetch
  (s.mail.poll? id).map fun (result, mail) => (result, { s with mail })

/-- Makes a call of the store fail, or work again. -/
def setFailing (s : Session) (call : StoreCall) (on : Bool) : Session :=
  { s with host := s.host.withStore (·.setFailing call on) }

end Session

end LiveQuery
