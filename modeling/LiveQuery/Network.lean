import LiveQuery.Fault
import LiveQuery.Message

/-!
# The network

Streams between a client and its server, all inside one machine. A stream has
two halves, and each of them can be dropped. The server's halves wait in the
order of their opening until they are accepted.
-/

namespace LiveQuery

/-- One stream: what is on its way in each direction, and which halves are still held. -/
structure Channel where
  requests : List StreamRequest := []
  events : List StreamEvent := []
  clientHolds : Bool := true
  serverHolds : Bool := true

/-- What the client finds at its end. -/
inductive Incoming where
  | event (event : StreamEvent)
  | nothing
  /-- The server dropped its half, and everything it sent is read. -/
  | disconnected

/-- Every stream that was opened, in order, and how many of them the server has accepted. -/
structure Network where
  available : Bool := true
  channels : List Channel := []
  accepted : Nat := 0

namespace Network

/-- How many streams were opened. -/
def opened (n : Network) : Nat := n.channels.length

/-- Opens a stream. -/
def openStream (n : Network) : Except Fault (Nat × Network) :=
  if n.available then .ok (n.opened, { n with channels := n.channels ++ [{}] })
  else .error (.transport "mock connection unavailable" true)

/-- Accepts the oldest stream that waits. -/
def accept? (n : Network) : Option (Nat × Network) :=
  if n.accepted < n.opened then some (n.accepted, { n with accepted := n.accepted + 1 }) else none

/-- Accepts every stream that waits. -/
def acceptAll (n : Network) : Network := { n with accepted := n.opened }

/-- Edits one stream. -/
def update (n : Network) (stream : Nat) (f : Channel → Channel) : Network :=
  { n with channels := n.channels.modify stream f }

/-- The stream, if the client still holds its half. -/
def client? (n : Network) (stream : Nat) : Option Channel :=
  n.channels[stream]?.filter (·.clientHolds)

/-- The stream, if the server has accepted it and still holds its half. -/
def server? (n : Network) (stream : Nat) : Option Channel :=
  if stream < n.accepted then n.channels[stream]?.filter (·.serverHolds) else none

/-- The client writes a request. It arrives if the server's half is there. -/
def request (n : Network) (stream : Nat) (request : StreamRequest) : Bool × Network :=
  if n.channels[stream]?.any (·.serverHolds) then
    (true, n.update stream fun c => { c with requests := c.requests ++ [request] })
  else (false, n)

/-- The server takes a request. -/
def nextRequest (n : Network) (stream : Nat) : Option StreamRequest × Network :=
  (n.channels[stream]?.bind (·.requests.head?),
    n.update stream fun c => { c with requests := c.requests.tail })

/-- The server sends an event. It arrives if the client's half is there. -/
def send (n : Network) (stream : Nat) (event : StreamEvent) : Bool × Network :=
  if n.channels[stream]?.any (·.clientHolds) then
    (true, n.update stream fun c => { c with events := c.events ++ [event] })
  else (false, n)

/-- What the client finds at its end of a stream, which it then takes. -/
def receive (n : Network) (stream : Nat) : Incoming × Network :=
  match n.channels[stream]? with
  | none => (.disconnected, n)
  | some c =>
    match c.events with
    | event :: rest => (.event event, n.update stream fun c => { c with events := rest })
    | [] => (if c.serverHolds then .nothing else .disconnected, n)

/-- The client drops its half; what it did not read is lost. -/
def dropClient (n : Network) (stream : Nat) : Network :=
  n.update stream fun c => { c with clientHolds := false, events := [] }

/-- The server drops its half; what it did not read is lost. -/
def dropServer (n : Network) (stream : Nat) : Network :=
  n.update stream fun c => { c with serverHolds := false, requests := [] }

/-- The server ends the stream. -/
def close (n : Network) (stream : Nat) (error : Option StreamError) : Network :=
  (n.send stream (.closed error)).2.dropServer stream

/-- Everything that the server finds at its ends, by stream. -/
def takeRequests (n : Network) : List (Nat × StreamRequest) × Network :=
  let requests := (n.channels.zipIdx.take n.accepted).flatMap fun (c, stream) =>
    c.requests.map (stream, ·)
  (requests, { n with channels := n.channels.mapIdx fun i c =>
    if i < n.accepted then { c with requests := [] } else c })

end Network

end LiveQuery
