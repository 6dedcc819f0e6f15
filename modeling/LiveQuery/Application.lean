import LiveQuery.Client
import LiveQuery.Mailbox

/-!
# Applications

An application that runs a client over a network and plays the server at the
other end. Whenever it reads, the client has run until there was nothing to do.
-/

namespace LiveQuery

/-- A client, or the store and the network that are left where none runs. -/
inductive Site where
  | running (client : Client)
  /-- There is a client whose loop broke off; it does not answer any more. -/
  | broken (store : Store) (network : Network)
  | stopped (store : Store) (network : Network)

namespace Site

def store : Site → Store
  | .running client => client.engine.store
  | .broken store _ | .stopped store _ => store

def network : Site → Network
  | .running client => client.network
  | .broken _ network | .stopped _ network => network

/-- Edits the client, if one runs. -/
def withClient (f : Client → Client) : Site → Site
  | .running client => .running (f client)
  | site => site

/-- Edits the store in its place. -/
def withStore (f : Store → Store) : Site → Site
  | .running client =>
    .running { client with engine := { client.engine with store := f client.engine.store } }
  | .broken store network => .broken (f store) network
  | .stopped store network => .stopped (f store) network

/-- Puts a network in the place of the present one. -/
def setNetwork (network : Network) : Site → Site
  | .running client => .running { client with network }
  | .broken store _ => .broken store network
  | .stopped store _ => .stopped store network

end Site

/-- Everything that is read at once: the mail of the client, and the requests on each stream. -/
structure ApplicationReport where
  mail : MailReport
  requests : List (Nat × StreamRequest)
  /-- How many streams were opened so far. -/
  opened : Nat

/-- What an application holds: its settings, the client or what is left without one, and its mail.
    -/
structure Application where
  config : Config
  site : Site
  mail : Mailbox := {}

namespace Application

/-- Makes a client over the store and the network at hand. -/
def spawn (a : Application) : Except Fault Application := do
  let client ← Client.spawn a.config a.site.store a.site.network
  return { a with site := .running client }

/-- An application over a new network and a store of which some calls may fail. -/
def start (config : Config) (available : Bool) (failing : List StoreCall) :
    Except Fault Application :=
  spawn { config, site := .stopped { failing } { available } }

/-- Puts all mail of the client into the mailbox. -/
def fetch (a : Application) : Application :=
  match a.site with
  | .running client =>
    let (mail, engine) := a.mail.fetch client.engine
    { a with site := .running { client with engine }, mail }
  | _ => a

/-- Lets the client run until there is nothing to do. If its loop breaks off, its engine is gone
    with it. -/
def settle (a : Application) : Application :=
  match a.site with
  | .running client =>
    match client.settle with
    | .ok client => { a with site := .running client }
    | .error client =>
      let mail := (a.mail.fetch client.engine).1.hangUp
      { a with site := .broken client.engine.store client.network, mail }
  | _ => a

/-- Lets the client run, accepts the streams that it opened, and reads everything. -/
def read (a : Application) : ApplicationReport × Application :=
  let a := a.settle.fetch
  let (mail, mailbox) := a.mail.read
  let network := a.site.network.acceptAll
  let (requests, network) := network.takeRequests
  ({ mail, requests, opened := network.opened },
    { a with site := a.site.setNetwork network, mail := mailbox })

/-- Gives a command, if there is a client, and keeps the receiver or handle that comes of it. -/
def command? (a : Application) (command : Command) : Option (Engine.Reply × Application) :=
  let a := a.settle
  match a.site with
  | .running client =>
    let (reply, client) := client.handle command
    let mail := match reply with
      | .listener id => a.mail.addReceiver id
      | .batch id => a.mail.addHandle id
      | _ => a.mail
    some (reply, { a with site := .running client, mail })
  | .broken .. => some (.refused .shutdown, a)
  | .stopped .. => none

/-- Gives a command, if there is a client, and walks away before the reply: a listener or a batch
    that comes of it reaches nobody. The result tells whether the call was over before that, as it
    is where nobody answers. -/
def abandon? (a : Application) (command : Command) : Option (Bool × Application) :=
  let a := a.settle
  match a.site with
  | .running client =>
    let (reply, client) := client.handle command
    let engine := match reply with
      | .listener id => client.engine.detach id
      | _ => client.engine
    some (false, { a with site := .running { client with engine } })
  | .broken .. => some (true, a)
  | .stopped .. => none

/-- What the engine has counted, if there is a client. -/
def stats? (a : Application) : Option (Except Fault Stats) :=
  match a.settle.site with
  | .running client => some (.ok client.engine.stats)
  | .broken .. => some (.error .shutdown)
  | .stopped .. => none

/-- Stops the client, if there is one. Its engine is gone with it. -/
def shutdown? (a : Application) : Option Application :=
  let a := a.settle
  let stop (a : Application) : Application :=
    { a with site := .stopped a.site.store a.site.network, mail := a.mail.hangUp }
  match a.site with
  | .running client => some (stop { a with site := .running client.shutdown }.fetch)
  | .broken .. => some (stop a)
  | .stopped .. => none

/-- Lets time pass. -/
def advance (a : Application) (millis : Nat) : Application :=
  { a with site := a.site.withClient fun c => { c with clock := c.clock + millis } }

/-- Drops a receiver, and tells whether it was there. -/
def dropReceiver (a : Application) (id : ListenerId) : Bool × Application :=
  let (found, mail) := a.mail.dropReceiver id
  let detach (c : Client) : Client := { c with engine := c.engine.detach id }
  (found, { a with mail, site := if found then a.site.withClient detach else a.site })

/-- Drops a handle, and tells whether it was there. The decision is then told to nobody. -/
def dropHandle (a : Application) (id : BatchId) : Bool × Application :=
  let (found, mail) := a.mail.dropHandle id
  (found, { a with mail })

/-- Makes a call of the store fail, or work again. -/
def setFailing (a : Application) (call : StoreCall) (on : Bool) : Application :=
  { a with site := a.site.withStore (·.setFailing call on) }

/-- Lets streams be opened, or refuses them. -/
def setAvailable (a : Application) (available : Bool) : Application :=
  { a with site := a.site.setNetwork { a.site.network with available } }

/-- The stream that is meant when none is named: the newest. -/
def streamOr (a : Application) (stream : Option Nat) : Nat :=
  stream.getD (a.site.network.accepted - 1)

/-- Sends events in order, if the server still holds the stream, and tells which arrived. -/
def send? (a : Application) (stream : Nat) (events : List StreamEvent) :
    Option (List Bool × Application) :=
  (a.site.network.server? stream).map fun _ =>
    let (arrived, network) := events.foldl (fun (arrived, network) event =>
      let (ok, network) := network.send stream event
      (arrived ++ [ok], network)) ([], a.site.network)
    (arrived, { a with site := a.site.setNetwork network })

/-- Ends a stream, if the server still holds it. -/
def close? (a : Application) (stream : Nat) (error : Option StreamError) : Option Application :=
  (a.site.network.server? stream).map fun _ =>
    { a with site := a.site.setNetwork (a.site.network.close stream error) }

/-- Drops the server's half of a stream without a word, and tells whether it was there. -/
def dropServer (a : Application) (stream : Nat) : Bool × Application :=
  match a.site.network.server? stream with
  | none => (false, a)
  | some _ => (true, { a with site := a.site.setNetwork (a.site.network.dropServer stream) })

end Application

end LiveQuery
