import LiveQuery.Client
import LiveQuery.Proofs.StreamNeeds

/-!
# The upkeep of a client's stream

Client and engine keep separate books about the stream: the client has a half of it,
and the engine knows whether it is connecting, open or closed. The engine may give its
stream up while the client still holds it. Then the books differ until the next upkeep,
but the engine shows why: it asks for a new start, or its network is disabled. The
upkeep opens, keeps or drops the stream so that the books agree again, and nothing else
that a client does makes them differ without a sign.
-/

namespace LiveQuery

namespace Network

/-- Whether the client holds its half of a stream, if the stream was ever opened. -/
def half? (n : Network) (stream : Nat) : Option Bool := n.channels[stream]?.map (·.clientHolds)

variable (n : Network) (stream other : Nat)

theorem half?_update {f : Channel → Channel} (kept : ∀ c, (f c).clientHolds = c.clientHolds) :
    (n.update stream f).half? other = n.half? other := by
  rw [half?, half?, update, List.getElem?_modify, Option.map_eq_map, Option.map_map]
  congr 1
  funext c
  by_cases here : stream = other <;> simp [here, kept]

theorem half?_dropClient : (n.dropClient stream).half? other =
    if stream = other then (n.half? other).map fun _ => false else n.half? other := by
  rw [half?, half?, dropClient, update, List.getElem?_modify, Option.map_eq_map, Option.map_map]
  by_cases here : stream = other <;> simp [here, Function.comp_def]

theorem half?_request (request : StreamRequest) :
    (n.request stream request).2.half? other = n.half? other := by
  unfold Network.request
  split
  · exact half?_update n stream other fun _ => rfl
  · rfl

theorem half?_send (event : StreamEvent) :
    (n.send stream event).2.half? other = n.half? other := by
  unfold send
  split
  · exact half?_update n stream other fun _ => rfl
  · rfl

theorem half?_dropServer : (n.dropServer stream).half? other = n.half? other :=
  half?_update n stream other fun _ => rfl

theorem half?_available (available : Bool) :
    ({ n with available } : Network).half? other = n.half? other := rfl

theorem half?_write (requests : List StreamRequest) :
    (Client.write n stream requests).half? other = n.half? other := by
  induction requests generalizing n with
  | nil => rfl
  | cons request rest ih =>
    have same := n.half?_request stream other request
    unfold Client.write
    split
    case h_1 written => exact (ih _).trans ((congrArg (·.2.half? other) written).symm.trans same)
    case h_2 lost => exact (congrArg (·.2.half? other) lost).symm.trans same

theorem half?_receive : (n.receive stream).2.half? other = n.half? other := by
  unfold receive
  split
  · rfl
  · split
    · exact half?_update n stream other fun _ => rfl
    · rfl

/-- A new stream is held, and the others are as they were. -/
theorem half?_openStream {n after : Network} {stream : Nat}
    (made : n.openStream = .ok (stream, after)) :
    after.half? stream = some true ∧
      ∀ other held, n.half? other = some held → after.half? other = some held := by
  unfold openStream at made
  split at made
  case isTrue =>
    obtain ⟨rfl, rfl⟩ := Prod.mk.inj (Except.ok.inj made)
    refine ⟨by simp [half?, opened], fun other held known => ?_⟩
    obtain ⟨channel, there, holds⟩ := Option.map_eq_some_iff.mp known
    have inside := (List.getElem?_eq_some_iff.mp there).1
    rw [half?, List.getElem?_append_left inside, there, Option.map_some, holds]
  case isFalse => cases made

end Network

namespace Client

variable {c d : Client}

/-- What others change while the client does nothing: the clock goes on, the server plays its part,
    mail is read, listeners give up their lines, and the store comes to hold something else. Nobody
    touches the client's halves of its streams. -/
structure Aside (c d : Client) : Prop where
  stream : d.engine.stream = c.engine.stream
  queue : d.engine.queue = c.engine.queue
  enabled : d.engine.enabled = c.engine.enabled
  restartRequested : d.engine.restartRequested = c.engine.restartRequested
  held : d.held = c.held
  retryAt : d.retryAt = c.retryAt
  halves : ∀ stream held, c.network.half? stream = some held → d.network.half? stream = some held

/-- The server may do what it likes with its own halves, at any time. -/
theorem Aside.of_halves {network : Network} (clock : Nat)
    (halves : ∀ stream, network.half? stream = c.network.half? stream) :
    c.Aside { c with network, clock } :=
  ⟨rfl, rfl, rfl, rfl, rfl, rfl, fun stream _ held => (halves stream).trans held⟩

/-- The client has a stream exactly if the engine has one, and only if one is needed. If one is
    needed and missing, a retry is set. -/
structure Agrees (c : Client) : Prop where
  held : c.held.isSome = true ↔ c.engine.stream.state.isStarted = true
  needed : c.held.isSome = true → c.engine.shouldConnect = true
  supplied : c.engine.shouldConnect = true → c.held.isSome = true ∨ c.retryAt.isSome = true

/-- The client keeps its stream up: besides, no new start is asked for, and the half that the
    client holds is its own. -/
structure Tended (c : Client) : Prop extends Agrees c where
  heeded : c.engine.restartRequested = false
  own : ∀ stream, c.held = some stream → c.network.half? stream = some true

/-- Before the upkeep the engine may have given up the stream that the client holds. Then it asks
    for a new start or its network is disabled. -/
structure Untended (c : Client) : Prop where
  started : c.engine.stream.state.isStarted = true →
    c.held.isSome = true ∧ c.engine.restartRequested = false
  shows : c.held.isSome = true → c.engine.stream.state.isStarted = true ∨
    c.engine.restartRequested = true ∨ c.engine.enabled = false
  own : ∀ stream, c.held = some stream → c.network.half? stream = some true

section Parts

/-- What the engine does by itself leaves the client's books in order. -/
theorem Tended.untended (tended : c.Tended) {engine : Engine}
    (minds : c.engine.serverSide.Minds engine.serverSide) : Untended { c with engine } where
  started started := by
    rcases minds with ⟨same, restart⟩ | ⟨closed, -⟩
    · exact ⟨tended.held.mpr (same.symm.trans started), restart.trans tended.heeded⟩
    · have closed : engine.stream.state = .closed := closed
      rw [closed] at started
      cases started
  shows held := by
    rcases minds with ⟨same, -⟩ | ⟨-, shown⟩
    · exact .inl (same.trans (tended.held.mp held))
    · exact .inr shown
  own := tended.own

/-- Without a stream on either side the books are in order. -/
theorem untended_of_nothing (closed : c.engine.stream.state = .closed) (held : c.held = none) :
    c.Untended where
  started started := by
    rw [closed] at started
    cases started
  shows impossible := by
    rw [held] at impossible
    cases impossible
  own stream impossible := by
    rw [held] at impossible
    cases impossible

/-- Dropping the stream lets go of the client's half, and of no other. -/
theorem half?_dropStream (c : Client) (stream : Nat) : c.dropStream.network.half? stream =
    if c.held = some stream then (c.network.half? stream).map fun _ => false
    else c.network.half? stream := by
  unfold dropStream
  cases held : c.held with
  | none => rfl
  | some other => simp [Network.half?_dropClient]

/-- Where the loop goes on after the end of a stream, a retry is set. -/
theorem endStream_eq {wait : Wait} {engine : Engine} (done : c.endStream wait engine = .ok d) :
    ∃ due, d = { c.dropStream with engine, retryAt := some due } := by
  cases wait with
  | beyond => cases done
  | lasting length =>
    unfold endStream scheduleRetry at done
    dsimp only at done
    split at done
    case h_1 due _ => exact ⟨due, (Except.ok.inj done).symm⟩
    case h_2 => cases done

/-- The stream is gone for the engine once it is told. -/
theorem closed_streamClosed (e : Engine) (error : Option StreamError) (now : Duration) :
    (e.streamClosed error now).2.stream.state = .closed := by
  rw [Engine.stream_streamClosed]
  rfl

/-- The engine after it was asked whether it wants a new start. -/
theorem heedRestart_cases (c : Client) :
    c.engine.restartRequested = false ∧
        c.heedRestart = { c with engine := { c.engine with restartRequested := false } } ∨
      c.engine.restartRequested = true ∧
        c.heedRestart = { c.dropStream with
          engine := { c.engine with restartRequested := false }, retryAt := none } := by
  unfold heedRestart Engine.takeRestart
  cases requested : c.engine.restartRequested with
  | false => exact .inl ⟨rfl, rfl⟩
  | true => exact .inr ⟨rfl, rfl⟩

/-- Once a new start is heeded, only a disabled network lets the client hold a stream that the
    engine does not have. -/
structure Heeded (c : Client) : Prop where
  heeded : c.engine.restartRequested = false
  started : c.engine.stream.state.isStarted = true → c.held.isSome = true
  shows : c.held.isSome = true →
    c.engine.stream.state.isStarted = true ∨ c.engine.enabled = false
  own : ∀ stream, c.held = some stream → c.network.half? stream = some true

theorem Untended.heedRestart (untended : c.Untended) : c.heedRestart.Heeded := by
  rcases c.heedRestart_cases with ⟨unrequested, same⟩ | ⟨requested, same⟩ <;> rw [same]
  · refine ⟨rfl, fun started => (untended.started started).1, fun held => ?_, untended.own⟩
    refine (untended.shows held).imp_right fun shown => shown.resolve_left fun requested => ?_
    cases unrequested.symm.trans requested
  · refine ⟨rfl, fun started => ?_, nofun, nofun⟩
    cases requested.symm.trans (untended.started started).2

/-- A stream is asked for where none is held. -/
theorem Heeded.connect? (heeded : c.Heeded) (nothing : c.held = none) :
    c.engine.connect? =
      some { c.engine with stream := { c.engine.stream with state := .connecting } } := by
  have unstarted : ¬c.engine.stream.state.isStarted = true := fun started => by
    have held := heeded.started started
    rw [nothing] at held
    cases held
  rw [Engine.connect?, WatchStream.connect?, if_neg unstarted]
  rfl

/-- What the upkeep comes to, once a new start is heeded. -/
inductive Keeps (c : Client) : Client → Prop
  | drop (unneeded : c.engine.shouldConnect = false) (held : c.held.isSome = true) :
    Keeps c { c.dropStream with engine := c.engine.disconnect }
  | idle (unneeded : c.engine.shouldConnect = false) (nothing : c.held = none) : Keeps c c
  | stay (needed : c.engine.shouldConnect = true)
    (supplied : c.held.isSome = true ∨ c.retryAt.isSome = true) : Keeps c c
  | dial {engine : Engine} {stream : Nat} {network : Network}
    (needed : c.engine.shouldConnect = true) (nothing : c.held = none)
    (asked : c.engine.connect? = some engine)
    (made : c.network.openStream = .ok (stream, network)) :
    Keeps c { c with engine, network, held := some stream }
  | fail {engine : Engine} {due : Nat} (error : StreamError) (now : Duration)
    (nothing : c.held = none) (asked : c.engine.connect? = some engine) :
    Keeps c { c with engine := (engine.streamClosed (some error) now).2, retryAt := some due }

/-- The upkeep keeps the stream, and is never refused one that it asks for. -/
theorem Untended.keeps (untended : c.Untended) {now : Duration}
    (done : c.maintainStream now = .ok d) : c.heedRestart.Keeps d := by
  have heeded := untended.heedRestart
  unfold maintainStream at done
  dsimp only at done
  generalize c.heedRestart = r at done heeded ⊢
  cases needed : r.engine.shouldConnect with
  | false =>
    rw [needed, Bool.not_false, if_pos rfl] at done
    cases held : r.held with
    | none =>
      rw [held] at done
      exact Except.ok.inj done ▸ .idle needed held
    | some stream =>
      have some_held : r.held.isSome = true := held ▸ rfl
      rw [if_pos some_held] at done
      exact Except.ok.inj done ▸ .drop needed some_held
  | true =>
    rw [needed, Bool.not_true, if_neg Bool.false_ne_true] at done
    by_cases supplied : (r.held.isSome || r.retryAt.isSome) = true
    · rw [if_pos supplied] at done
      exact Except.ok.inj done ▸ .stay needed (Bool.or_eq_true_iff.mp supplied)
    · rw [if_neg supplied] at done
      have nothing : r.held = none := by
        cases held : r.held with
        | none => rfl
        | some stream => simp [held] at supplied
      have asked := heeded.connect? nothing
      rw [asked] at done
      dsimp only [Client.dial] at done
      split at done
      case h_1 stream network made => exact Except.ok.inj done ▸ .dial needed nothing asked made
      case h_2 fault _ =>
        obtain ⟨due, rfl⟩ := endStream_eq done
        have same : dropStream { r with
            engine := { r.engine with stream := { r.engine.stream with state := .connecting } } } =
            { r with
              engine := { r.engine with
                stream := { r.engine.stream with state := .connecting } } } := by
          obtain ⟨engine, network, held, retryAt, clock⟩ := r
          obtain rfl : held = none := nothing
          rfl
        rw [same]
        exact .fail _ now nothing asked

theorem enabled_of_needed {e : Engine} (needed : e.shouldConnect = true) : e.enabled = true :=
  (Bool.and_eq_true_iff.mp needed).1

/-- Without a stream on either side the two agree, if a retry is set where one is needed. -/
theorem tended_of_nothing (closed : c.engine.stream.state = .closed) (nothing : c.held = none)
    (heeded : c.engine.restartRequested = false)
    (supplied : c.engine.shouldConnect = true → c.retryAt.isSome = true) : c.Tended where
  held := by simp [nothing, closed, StreamState.isStarted]
  needed := by simp [nothing]
  supplied needed := .inr (supplied needed)
  heeded := heeded
  own := by simp [nothing]

/-- After the upkeep client and engine agree. -/
theorem Heeded.tended (heeded : c.Heeded) (keeps : c.Keeps d) : d.Tended := by
  cases keeps with
  | drop unneeded held =>
    obtain ⟨closed, -, restart⟩ := c.engine.serverSide.disconnect_closed
    rw [← Engine.serverSide_disconnect] at closed restart
    refine tended_of_nothing closed rfl (restart.trans heeded.heeded) fun needed => ?_
    rw [c.engine.shouldConnect_disconnect, unneeded] at needed
    cases needed
  | idle unneeded nothing =>
    have closed : c.engine.stream.state = .closed := by
      cases state : c.engine.stream.state with
      | closed => rfl
      | connecting | opened =>
        have held := heeded.started (by rw [state]; rfl)
        rw [nothing] at held
        cases held
    refine tended_of_nothing closed nothing heeded.heeded fun needed => ?_
    cases unneeded.symm.trans needed
  | stay needed supplied =>
    refine ⟨⟨⟨fun held => ?_, heeded.started⟩, fun _ => needed, fun _ => supplied⟩, heeded.heeded,
      heeded.own⟩
    refine (heeded.shows held).resolve_right fun disabled => ?_
    cases disabled.symm.trans (enabled_of_needed needed)
  | dial needed nothing asked made =>
    have same := Engine.shouldConnect_connect? asked
    obtain ⟨stream, connecting, rfl⟩ := Option.map_eq_some_iff.mp asked
    rw [WatchStream.connect?, Option.ite_none_left_eq_some] at connecting
    refine ⟨⟨⟨fun _ => ?_, fun _ => rfl⟩, fun _ => same.trans needed, fun _ => .inl rfl⟩,
      heeded.heeded, fun stream held => ?_⟩
    · rw [← Option.some.inj connecting.2]
      rfl
    · rw [← Option.some.inj held]
      exact (Network.half?_openStream made).1
  | @fail engine due error now nothing asked =>
    have told := engine.serverSide_streamClosed (some error) now
    have unasked : engine.restartRequested = false := by
      obtain ⟨stream, -, rfl⟩ := Option.map_eq_some_iff.mp asked
      exact heeded.heeded
    have closed := closed_streamClosed engine (some error) now
    refine tended_of_nothing closed nothing ?_ fun _ => rfl
    refine (congrArg ServerSide.restartRequested told).trans ?_
    exact (ServerSide.frame_rejectTargets _ _).2.2.trans unasked

/-- Writing lets go of no half of a stream. -/
theorem half?_flush (c : Client) (stream : Nat) :
    c.flush.network.half? stream = c.network.half? stream := by
  unfold flush
  split
  case h_1 => rfl
  case h_2 own _ => exact c.network.half?_write own stream _

theorem enabled_flush (c : Client) : c.flush.engine.enabled = c.engine.enabled := by
  unfold flush
  split
  case h_1 => rfl
  case h_2 => exact congrArg ServerSide.enabled c.engine.serverSide_takeOutbound

/-- Writing changes nothing about the stream. -/
theorem flush_frame (c : Client) :
    c.flush.held = c.held ∧ c.flush.retryAt = c.retryAt ∧
      c.flush.engine.stream.state = c.engine.stream.state ∧
      c.flush.engine.shouldConnect = c.engine.shouldConnect ∧
      c.flush.engine.restartRequested = c.engine.restartRequested := by
  unfold flush
  split
  case h_1 => exact ⟨rfl, rfl, rfl, rfl, rfl⟩
  case h_2 stream held =>
    have side := c.engine.serverSide_takeOutbound
    refine ⟨rfl, rfl, ?_, c.engine.shouldConnect_takeOutbound,
      congrArg ServerSide.restartRequested side⟩
    refine (congrArg (·.stream.state) side).trans ?_
    dsimp only
    unfold WatchStream.takeOutbox
    split <;> rfl

theorem Tended.flush (tended : c.Tended) : c.flush.Tended := by
  obtain ⟨held, retryAt, state, needed, restart⟩ := c.flush_frame
  refine ⟨⟨?_, ?_, ?_⟩, restart.trans tended.heeded, fun stream own => ?_⟩
  · rw [held, state]
    exact tended.held
  · rw [held, needed]
    exact tended.needed
  · rw [held, needed, retryAt]
    exact tended.supplied
  · rw [half?_flush]
    exact tended.own stream (held ▸ own)

/-- No command takes the stream from the client without a sign. -/
theorem minds_command (s : ServerSide) (stored : Target → Replica) {command : Command}
    {action : Engine.Action} (called : command.action? = some action) :
    s.Minds (s.perform stored action) := by
  cases command with
  | listen target | submit mutations | resume =>
    obtain rfl := Option.some.inj called
    exact .inl ⟨rfl, rfl⟩
  | unlisten x =>
    obtain rfl := Option.some.inj called
    exact s.minds_unlisten x
  | interrupt =>
    obtain rfl := Option.some.inj called
    exact s.minds_interrupt
  | stats => cases called

theorem Tended.handle (tended : c.Tended) (command : Command) :
    (c.handle command).2.Untended ∧ (c.handle command).2.network = c.network := by
  unfold Client.handle
  split
  case h_1 => exact ⟨tended.untended (.inl ⟨rfl, rfl⟩), rfl⟩
  case h_2 action called =>
    have side := c.engine.serverSide_perform action
    have untended := tended.untended (side ▸ minds_command _ _ called)
    dsimp only
    split
    · exact ⟨⟨untended.started, untended.shows, untended.own⟩, rfl⟩
    · exact ⟨untended, rfl⟩

/-- What comes of an event that the client takes in: the engine goes on, or the stream ended and a
    retry is set. -/
theorem event_cases {stream : Nat} {now : Duration} (held : c.held = some stream)
    (came : c.nextEvent? now = some (.ok d)) :
    ∃ network, (∀ other, network.half? other = c.network.half? other) ∧
      ((∃ event, (∀ error, event ≠ .closed error) ∧
          d = { c with network, engine := (c.engine.handle event now).2 }) ∨
        ∃ error due, d = { dropStream { c with network } with
          engine := (c.engine.streamClosed error now).2, retryAt := some due }) := by
  have handed {network : Network} {event : StreamEvent}
      (done : handleEvent { c with network } event now = .ok d) :
      (∃ event, (∀ error, event ≠ .closed error) ∧
          d = { c with network, engine := (c.engine.handle event now).2 }) ∨
        ∃ error due, d = { dropStream { c with network } with
          engine := (c.engine.streamClosed error now).2, retryAt := some due } := by
    cases event with
    | closed error =>
      obtain ⟨due, rfl⟩ := endStream_eq done
      exact .inr ⟨error, due, rfl⟩
    | opened => exact .inl ⟨.opened, nofun, (Except.ok.inj done).symm⟩
    | watch change => exact .inl ⟨.watch change, nofun, (Except.ok.inj done).symm⟩
    | writeAcked batch commit =>
      exact .inl ⟨.writeAcked batch commit, nofun, (Except.ok.inj done).symm⟩
    | writeRejected batch status =>
      exact .inl ⟨.writeRejected batch status, nofun, (Except.ok.inj done).symm⟩
  have half := c.network.half?_receive stream
  obtain ⟨own, there, came⟩ := Option.bind_eq_some_iff.mp came
  obtain rfl : stream = own := Option.some.inj (held.symm.trans there)
  split at came
  case h_1 event network received =>
    exact ⟨network, fun other => (congrArg (·.2.half? other) received).symm.trans (half other),
      handed (Option.some.inj came)⟩
  case h_2 network received =>
    exact ⟨network, fun other => (congrArg (·.2.half? other) received).symm.trans (half other),
      handed (Option.some.inj came)⟩
  case h_3 => cases came

/-- An event that ends the engine's stream makes the client drop it, or shows. -/
theorem Tended.event (tended : c.Tended) {stream : Nat} {now : Duration}
    (held : c.held = some stream) (came : c.nextEvent? now = some (.ok d)) : d.Untended := by
  have started : c.engine.stream.state.isStarted = true := tended.held.mp (held ▸ rfl)
  obtain ⟨network, half, ⟨event, lasting, rfl⟩ | ⟨error, due, rfl⟩⟩ := event_cases held came
  · have side := c.engine.serverSide_handle event now
    have untended := tended.untended (side ▸ ServerSide.minds_handle started lasting _)
    exact ⟨untended.started, untended.shows, fun stream own => (half stream).trans
      (untended.own stream own)⟩
  · exact untended_of_nothing (closed_streamClosed _ _ _) rfl

theorem wake?_eq (elapsed : c.wake? = some d) : d = { c with retryAt := none } := by
  obtain ⟨due, -, elapsed⟩ := Option.bind_eq_some_iff.mp elapsed
  split at elapsed
  case isTrue => exact (Option.some.inj elapsed).symm
  case isFalse => cases elapsed

/-- What others do changes nothing between client and engine. -/
theorem Untended.aside (untended : c.Untended) (aside : c.Aside d) : d.Untended where
  started := by
    rw [aside.stream, aside.held, aside.restartRequested]
    exact untended.started
  shows := by
    rw [aside.stream, aside.held, aside.restartRequested, aside.enabled]
    exact untended.shows
  own stream held := aside.halves stream true (untended.own stream (aside.held ▸ held))

theorem Tended.aside (tended : c.Tended) (aside : c.Aside d) : d.Tended := by
  have needed : d.engine.shouldConnect = c.engine.shouldConnect :=
    Engine.shouldConnect_congr aside.enabled (by rw [aside.stream]) (by rw [aside.queue])
  refine ⟨⟨?_, ?_, ?_⟩, aside.restartRequested.trans tended.heeded, fun stream held => ?_⟩
  · rw [aside.held, aside.stream]
    exact tended.held
  · rw [aside.held, needed]
    exact tended.needed
  · rw [aside.held, aside.retryAt, needed]
    exact tended.supplied
  · exact aside.halves stream true (tended.own stream (aside.held ▸ held))

/-- The wait has a length, and the machine can count to its end. -/
def Measures (c : Client) (wait : Wait) : Prop :=
  ∃ length due, wait = .lasting length ∧ c.due? length = some due

theorem endStream_ok {wait : Wait} (measures : c.Measures wait) (engine : Engine) :
    ∃ d, c.endStream wait engine = .ok d := by
  obtain ⟨length, due, rfl, counted⟩ := measures
  have same : due? { c.dropStream with engine } length = c.due? length := by
    rw [due?, due?, show ({ c.dropStream with engine } : Client).clock = c.clock from rfl]
  refine ⟨{ c.dropStream with engine, retryAt := some due }, ?_⟩
  unfold endStream scheduleRetry
  dsimp only
  rw [same, counted]

theorem wait_streamClosed (e : Engine) (error : Option StreamError) (now : Duration) :
    (e.streamClosed error now).1 = (e.stream.backoff.recordFailure now).currentWait := by
  cases error <;> rfl

/-- The loop breaks off in the upkeep only over a wait that cannot be measured. -/
theorem maintainStream_ok {now : Duration}
    (measures : c.Measures (c.engine.stream.backoff.recordFailure now).currentWait) :
    ∃ d, c.maintainStream now = .ok d := by
  have kept : c.heedRestart.Measures
      (c.heedRestart.engine.stream.backoff.recordFailure now).currentWait := by
    rcases c.heedRestart_cases with ⟨-, same⟩ | ⟨-, same⟩ <;> rw [same] <;> exact measures
  unfold maintainStream
  dsimp only
  generalize c.heedRestart = r at kept
  split
  · exact ⟨_, rfl⟩
  · split
    · exact ⟨_, rfl⟩
    · cases asked : r.engine.connect? with
      | none => exact ⟨_, rfl⟩
      | some engine =>
        dsimp only [Client.dial]
        split
        · exact ⟨_, rfl⟩
        · have same : engine.stream.backoff = r.engine.stream.backoff := by
            obtain ⟨stream, connecting, rfl⟩ := Option.map_eq_some_iff.mp asked
            rw [WatchStream.connect?, Option.ite_none_left_eq_some] at connecting
            rw [← Option.some.inj connecting.2]
          refine endStream_ok ?_ _
          rw [wait_streamClosed, same]
          exact kept

end Parts

end Client

end LiveQuery
