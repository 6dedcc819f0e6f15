import LiveQuery.Engine.Action
import LiveQuery.Network

/-!
# The client

The client gives its engine a stream whenever the engine should have one. It
hands the engine the stream's events, writes what the engine wants written, and
after a failure waits before it opens the next stream. It does so in a loop,
which breaks off when a wait is longer than it can be measured.
-/

namespace LiveQuery

/-- A running client. Times are milliseconds on its clock. -/
structure Client where
  engine : Engine
  network : Network
  /-- The stream that the client holds. -/
  held : Option Nat := none
  /-- When the next stream is to be opened, after a failure. -/
  retryAt : Option Nat := none
  clock : Nat := 0

/-- What an application can ask of a client. -/
inductive Command where
  | listen (target : Target)
  | unlisten (listener : ListenerId)
  | submit (mutations : List Mutation)
  | interrupt
  | resume
  | stats

namespace Command

/-- The call of the engine that a command stands for, if it stands for one. -/
def action? : Command → Option Engine.Action
  | .listen target => some (.listen target)
  | .unlisten listener => some (.unlisten listener)
  | .submit mutations => some (.submit mutations)
  | .interrupt => some .interrupt
  | .resume => some .resume
  | .stats => none

end Command

/-- A client after a part of its loop, or as it was when the loop broke off. -/
abbrev Client.Outcome := Except Client Client

namespace Client

/-- The time by the engine's own clock in a client that is left to itself. To the engine only the
    time between the opening of a stream and its end matters; here a stream opens at the start, and
    all else happens a moment later. -/
def ownTime (c : Client) : Duration :=
  if c.engine.stream.state = .opened then .moment else .zero

/-- Drops the stream. -/
def dropStream (c : Client) : Client :=
  { c with held := none, network := c.held.elim c.network c.network.dropClient }

/-- How many seconds the machine can count. -/
def secondsLimit : Nat := 2 ^ 63

/-- The millisecond of the last alarm that can be set. -/
def lastAlarm : Nat := 2 ^ 64 - 3

/-- When a wait that begins now is over, if the machine can count so far. Alarms are set to whole
    milliseconds. -/
def due? (c : Client) (length : Duration) : Option Nat :=
  if 10 ^ 6 * c.clock + length.nanos < secondsLimit * 10 ^ 9 then
    some (min (c.clock + length.ceilMillis) lastAlarm)
  else none

/-- Waits before the next stream is opened. -/
def scheduleRetry (c : Client) (length : Duration) : Outcome :=
  match c.due? length with
  | some due => .ok { c with retryAt := some due }
  | none => .error c

/-- Drops a stream that ended, keeps the engine as it is afterwards, and waits before the next
    stream. Over a wait without a length the engine itself breaks down, and nothing of what it did
    about the end of the stream is seen. -/
def endStream (c : Client) (wait : Wait) (engine : Engine) : Outcome :=
  match wait with
  | .lasting length => { c.dropStream with engine }.scheduleRetry length
  | .beyond => .error c.dropStream

/-- Tries to open a stream for an engine that asked for one. -/
def dial (c : Client) (now : Duration) : Outcome :=
  match c.network.openStream with
  | .ok (stream, network) => .ok { c with network, held := some stream }
  | .error fault =>
    let error : StreamError := { status := ⟨.unavailable, fault.message⟩ }
    let (wait, engine) := c.engine.streamClosed (some error) now
    c.endStream wait engine

/-- Gives up the stream if the engine starts over. -/
def heedRestart (c : Client) : Client :=
  let (requested, engine) := c.engine.takeRestart
  let c := { c with engine }
  if requested then { c.dropStream with retryAt := none } else c

/-- Opens a stream, keeps it or drops it, as the engine needs. Times that are handed to the engine
    are those of its own clock. -/
def maintainStream (c : Client) (now : Duration) : Outcome :=
  let c := c.heedRestart
  if !c.engine.shouldConnect then
    .ok (if c.held.isSome then { c.dropStream with engine := c.engine.disconnect } else c)
  else if c.held.isSome || c.retryAt.isSome then .ok c
  else match c.engine.connect? with
    | none => .ok c
    | some engine => { c with engine }.dial now

/-- Writes requests until the server is gone. -/
def write (network : Network) (stream : Nat) : List StreamRequest → Network
  | [] => network
  | request :: rest =>
    match network.request stream request with
    | (true, network) => write network stream rest
    | (false, network) => network

/-- Writes what the engine wants written. -/
def flush (c : Client) : Client :=
  match c.held with
  | none => c
  | some stream =>
    let (requests, engine) := c.engine.takeOutbound
    { c with engine, network := write c.network stream requests }

/-- What is done before the client waits again. -/
def upkeep (c : Client) : Outcome := (c.maintainStream c.ownTime).map flush

/-- The event of a stream that ended without a word. -/
def droppedEvent : StreamEvent := .closed (some { status := ⟨.unavailable, "stream dropped"⟩ })

/-- Hands the engine an event of its stream. -/
def handleEvent (c : Client) (event : StreamEvent) (now : Duration) : Outcome :=
  match c.engine.handle event now with
  | (none, engine) => .ok { c with engine }
  | (some wait, engine) => c.endStream wait engine

/-- Takes the next event of the stream, if there is one. -/
def nextEvent? (c : Client) (now : Duration) : Option Outcome := do
  let stream ← c.held
  match c.network.receive stream with
  | (.event event, network) => return { c with network }.handleEvent event now
  | (.disconnected, network) => return { c with network }.handleEvent droppedEvent now
  | (.nothing, _) => none

/-- Ends a wait that is over. -/
def wake? (c : Client) : Option Client := do
  let due ← c.retryAt
  if due ≤ c.clock then return { c with retryAt := none } else none

/-- Runs until there is nothing to do, or for so many turns. -/
def runFor : Nat → Client → Outcome
  | 0, c => c.upkeep
  | turns + 1, c => do
    let c ← c.upkeep
    match (c.nextEvent? c.ownTime).or (c.wake?.map .ok) with
    | some next => runFor turns (← next)
    | none => return c

/-- The events that wait in the held stream. -/
def backlog (c : Client) : Nat := c.held.elim 0 fun stream =>
  c.network.channels[stream]?.elim 0 (·.events.length)

/-- Whether the waits, which never shrink, come to one that is not over at once. -/
def comesToWait (c : Client) : Bool :=
  match c.engine.config.backoff.wait Backoff.attemptLimit with
  | .lasting length => (c.due? length).all (c.clock < ·)
  | .beyond => true

/-- The turns in which a client comes to rest. Each event can end the stream and so start one wait.
    A wait that is over at once can end in the next failure, up to the first one that takes time.
    Where none takes time there is no rest as long as streams fail, and the turns are cut short. -/
def turns (c : Client) : Nat :=
  2 * c.backlog + 4 + if c.comesToWait then Backoff.attemptLimit else 0

/-- Runs until there is nothing to do. -/
def settle (c : Client) : Outcome := runFor c.turns c

/-- Makes a client over a store and a network. -/
def spawn (config : Config) (store : Store) (network : Network) : Except Fault Client := do
  let engine ← Engine.ofStore config store
  return { engine, network }

/-- Carries out a command. When the network is enabled, no wait stands in the way of the next
    stream. -/
def handle (c : Client) (command : Command) : Engine.Reply × Client :=
  match command.action? with
  | none => (.done, c)
  | some action =>
    let (reply, engine) := c.engine.perform action
    let c := { c with engine }
    (reply, match command with
      | .resume => { c with retryAt := none }
      | _ => c)

/-- Stops the client. Its stream is closed, and listeners are told for the last time. -/
def shutdown (c : Client) : Client := { c with engine := c.engine.disconnect }.dropStream

end Client

end LiveQuery
