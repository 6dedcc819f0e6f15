import LiveQuery.Proofs.ClientUpkeep

/-!
# The client's loop

A client turns in a loop: it does the upkeep of its stream, writes what is to be
written, and waits. Then it carries out one command, or hands the engine one event of
the stream, or ends the wait before the next stream. In between, the server plays its
part on the network.

After every upkeep client and engine agree on the stream: the client holds one exactly
if the engine has one, it holds none without need, and where one is needed but missing
a retry is set. So the engine never refuses to begin a stream, and no event is taken in
from a stream that was given up.
-/

namespace LiveQuery

namespace Client

variable {c d : Client}

/-- Where a client stands in its loop. -/
inductive Place where
  /-- Something happened, and the upkeep is due. -/
  | due
  /-- The stream is kept up, and requests can be written. -/
  | kept
  | waiting
deriving DecidableEq

/-- What a client does in its loop. -/
inductive Move where
  /-- It opens, keeps or drops its stream. -/
  | keep
  | write
  | command (command : Command)
  /-- It hands the engine an event of a stream, be it the word that the stream is gone. -/
  | event (stream : Nat)
  /-- The wait before the next stream is over. -/
  | alarm
  /-- It does nothing, and others do. -/
  | rest

/-- One part of the loop. Whatever is handed to the engine comes at any time of its clock, so a
    stream may have been open for long when it ends. -/
inductive Step : Place → Client → Move → Place → Client → Prop
  | keep {c d : Client} (now : Duration) (done : c.maintainStream now = .ok d) :
    Step .due c .keep .kept d
  | write (c : Client) : Step .kept c .write .waiting c.flush
  | command (c : Client) (command : Command) :
    Step .waiting c (.command command) .due (c.handle command).2
  | event {c d : Client} {stream : Nat} (now : Duration) (held : c.held = some stream)
    (came : c.nextEvent? now = some (.ok d)) : Step .waiting c (.event stream) .due d
  | alarm {c d : Client} (elapsed : c.wake? = some d) : Step .waiting c .alarm .due d
  | rest (place : Place) {c d : Client} (aside : c.Aside d) : Step place c .rest place d

/-- A move and the client that made it. -/
structure Turn where
  before : Client
  move : Move

/-- Run start past place c: from `start` on the client came to `c` by the turns of `past`, the
    latest first. -/
inductive Run (start : Client) : List Turn → Place → Client → Prop
  | start : Run start [] .due start
  | step {past : List Turn} {place next : Place} {c d : Client} {move : Move}
    (run : Run start past place c) (step : Step place c move next d) :
    Run start (⟨c, move⟩ :: past) next d

/-- What holds of a client by where it stands. -/
def Kept : Place → Client → Prop
  | .due, c => c.Untended
  | _, c => c.Tended

section Parts

/-- Every part of the loop keeps the books as they should be at its place. -/
theorem Kept.step {place next : Place} {move : Move} (kept : Kept place c)
    (step : Step place c move next d) : Kept next d := by
  cases step with
  | keep now done => exact (Untended.heedRestart kept).tended (Untended.keeps kept done)
  | write => exact Tended.flush kept
  | command _ asked => exact (Tended.handle kept asked).1
  | event now held came => exact Tended.event kept held came
  | alarm elapsed =>
    have untended := Tended.untended kept (.inl ⟨rfl, rfl⟩)
    rw [wake?_eq elapsed]
    exact ⟨untended.started, untended.shows, untended.own⟩
  | rest place aside =>
    cases place with
    | due => exact Untended.aside kept aside
    | kept | waiting => exact Tended.aside kept aside

/-- Whether the network is enabled after a move. -/
def Move.enables (before : Bool) : Move → Bool
  | .command .interrupt => false
  | .command .resume => true
  | _ => before

/-- The network is disabled and enabled by the commands for it. -/
theorem enabled_step {place next : Place} {move : Move} (kept : Kept place c)
    (step : Step place c move next d) : d.engine.enabled = move.enables c.engine.enabled := by
  have closed (engine : Engine) (error : Option StreamError) (now : Duration) :
      (engine.streamClosed error now).2.enabled = engine.enabled :=
    (congrArg ServerSide.enabled (engine.serverSide_streamClosed error now)).trans
      (ServerSide.frame_rejectTargets _ _).2.1
  cases step with
  | keep now done =>
    have heeded : c.heedRestart.engine.enabled = c.engine.enabled := by
      rcases c.heedRestart_cases with ⟨-, same⟩ | ⟨-, same⟩ <;> rw [same]
    refine Eq.trans ?_ heeded
    cases Untended.keeps kept done with
    | drop =>
      exact (congrArg ServerSide.enabled (Engine.serverSide_disconnect _)).trans
        (ServerSide.disconnect_closed _).2.1
    | idle | stay => rfl
    | dial _ _ asked =>
      obtain ⟨stream, -, rfl⟩ := Option.map_eq_some_iff.mp asked
      rfl
    | @fail engine _ error now _ asked =>
      refine (closed engine (some error) now).trans ?_
      obtain ⟨stream, -, rfl⟩ := Option.map_eq_some_iff.mp asked
      rfl
  | write => exact c.enabled_flush
  | command _ asked =>
    have performed (action : Engine.Action) :=
      (congrArg ServerSide.enabled (c.engine.serverSide_perform action)).trans
        (c.engine.serverSide.enabled_perform c.engine.storedServer action)
    cases asked with
    | listen target => exact performed (.listen target)
    | unlisten x => exact performed (.unlisten x)
    | submit mutations => exact performed (.submit mutations)
    | interrupt => exact performed .interrupt
    | resume | stats => rfl
  | event now held came =>
    obtain ⟨network, -, ⟨event, -, rfl⟩ | ⟨error, due, rfl⟩⟩ := event_cases held came
    · exact (congrArg ServerSide.enabled (c.engine.serverSide_handle event _)).trans
        (c.engine.serverSide.enabled_perform c.engine.storedServer (.handle event _))
    · exact closed c.engine error now
  | alarm elapsed =>
    rw [wake?_eq elapsed]
    rfl
  | rest _ aside => exact aside.enabled

/-- The client gave a stream up, or the engine did and the upkeep is due. -/
def GivenUp (place : Place) (c : Client) (stream : Nat) : Prop :=
  c.network.half? stream = some false ∨
    place = .due ∧ c.held = some stream ∧ c.engine.stream.state = .closed

/-- The upkeep drops a stream that the engine gave up. -/
theorem GivenUp.keep {stream : Nat} (given_up : GivenUp .due c stream) (untended : c.Untended)
    {now : Duration} (done : c.maintainStream now = .ok d) :
    d.network.half? stream = some false := by
  have heeded := untended.heedRestart
  have given_up : GivenUp .due c.heedRestart stream := by
    rcases c.heedRestart_cases with ⟨-, same⟩ | ⟨-, same⟩ <;> rw [same]
    · exact given_up
    · refine .inl ((c.half?_dropStream stream).trans ?_)
      rcases given_up with dropped | ⟨-, held, -⟩
      · rw [dropped, Option.map_some, ite_self]
      · rw [if_pos held, untended.own stream held, Option.map_some]
  have lost (nothing : c.heedRestart.held = none) :
      c.heedRestart.network.half? stream = some false :=
    given_up.resolve_right fun ⟨_, held, _⟩ => nomatch held.symm.trans nothing
  cases untended.keeps done with
  | drop =>
    refine (half?_dropStream _ stream).trans ?_
    rcases given_up with dropped | ⟨-, held, -⟩
    · rw [dropped, Option.map_some, ite_self]
    · rw [if_pos held, heeded.own stream held, Option.map_some]
  | idle unneeded nothing => exact lost nothing
  | stay needed supplied =>
    refine given_up.resolve_right fun ⟨_, held, closed⟩ => ?_
    rcases heeded.shows (held ▸ rfl) with started | disabled
    · rw [closed] at started
      cases started
    · cases disabled.symm.trans (enabled_of_needed needed)
  | dial needed nothing asked made =>
    exact (Network.half?_openStream made).2 stream _ (lost nothing)
  | fail error now nothing asked => exact lost nothing

/-- A stream that is given up stays given up, and no event of it is taken in. -/
theorem GivenUp.step {place next : Place} {move : Move} {stream : Nat} (kept : Kept place c)
    (given_up : GivenUp place c stream) (step : Step place c move next d) :
    GivenUp next d stream ∧ move ≠ .event stream := by
  have dropped (upkept : place ≠ .due) : c.network.half? stream = some false :=
    given_up.resolve_right fun due => upkept due.1
  cases step with
  | keep now done => exact ⟨.inl (given_up.keep kept done), nofun⟩
  | write => exact ⟨.inl ((c.half?_flush stream).trans (dropped nofun)), nofun⟩
  | command _ asked =>
    exact ⟨.inl ((congrArg (·.half? stream) (Tended.handle kept asked).2).trans (dropped nofun)),
      nofun⟩
  | @event _ _ other now held came =>
    have tended : c.Tended := kept
    have dropped := dropped nofun
    constructor
    · obtain ⟨network, half, ⟨event, -, rfl⟩ | ⟨error, due, rfl⟩⟩ := event_cases held came
      · exact .inl ((half stream).trans dropped)
      · refine .inl ((half?_dropStream { c with network } stream).trans ?_)
        rw [half, dropped, Option.map_some, ite_self]
    · intro same
      obtain rfl : other = stream := Move.event.inj same
      cases dropped.symm.trans (tended.own other held)
  | alarm elapsed =>
    rw [wake?_eq elapsed]
    exact ⟨.inl (dropped nofun), nofun⟩
  | rest _ aside =>
    refine ⟨given_up.imp (aside.halves stream false) fun
      ⟨due, held, closed⟩ => ⟨due, aside.held.trans held, ?_⟩, nofun⟩
    rw [aside.stream]
    exact closed

end Parts

/-- The network was disabled and not enabled since. -/
def Interrupted : List Turn → Prop
  | [] => False
  | turn :: past => turn.move = .command .interrupt ∨
      turn.move ≠ .command .resume ∧ Interrupted past

/-- At a turn a stream was given up: the client let go of its half, or holds it although the engine
    has no stream any more. -/
def Turn.Abandons (turn : Turn) (stream : Nat) : Prop :=
  turn.before.network.half? stream = some false ∨
    turn.before.held = some stream ∧ turn.before.engine.stream.state = .closed

section Runs

variable {config : Config} {store : Store} {network : Network} {start : Client}
  {past : List Turn} {place : Place}

theorem Run.kept (spawned : spawn config store network = .ok start)
    (run : Run start past place c) : Kept place c := by
  induction run with
  | start =>
    unfold spawn at spawned
    cases read : Engine.ofStore config store with
    | error fault =>
      rw [read] at spawned
      cases spawned
    | ok engine =>
      rw [read] at spawned
      obtain rfl := Except.ok.inj spawned
      obtain ⟨pending, rfl⟩ := Engine.ofStore_eq read
      exact untended_of_nothing rfl rfl
  | step run step ih => exact ih.step step

/-- While the network is disabled the engine knows it. -/
theorem Run.disabled (spawned : spawn config store network = .ok start)
    (run : Run start past place c) (interrupted : Interrupted past) :
    c.engine.enabled = false := by
  induction run with
  | start => cases interrupted
  | @step past place next c d move run step ih =>
    rw [enabled_step (run.kept spawned) step]
    rcases interrupted with now | ⟨lasting, before⟩
    · rw [show move = .command .interrupt from now]
      rfl
    · rw [ih before]
      unfold Move.enables
      split
      · rfl
      · exact absurd rfl lasting
      · rfl

/-- What was given up at a turn stays given up. -/
theorem Run.given_up (spawned : spawn config store network = .ok start)
    (run : Run start past place c) {turn : Turn} (member : turn ∈ past) {stream : Nat}
    (abandons : turn.Abandons stream) : GivenUp place c stream := by
  induction run with
  | start => cases member
  | @step past place next c d move run step ih =>
    have kept := run.kept spawned
    refine (GivenUp.step kept ?_ step).1
    rcases List.mem_cons.mp member with rfl | earlier
    · refine abandons.imp_right fun ⟨held, closed⟩ => ⟨?_, held, closed⟩
      have untended (tended : c.Tended) : place = .due := by
        have started := tended.held.mp (held ▸ rfl)
        rw [closed] at started
        cases started
      cases place with
      | due => rfl
      | kept | waiting => exact untended kept
    · exact ih earlier

/-- An event is taken in from the stream that is held, while the engine has one. -/
theorem Run.events (spawned : spawn config store network = .ok start)
    (run : Run start past place c) : ∀ turn ∈ past, ∀ stream, turn.move = .event stream →
      turn.before.held = some stream ∧ turn.before.engine.stream.state.isStarted = true := by
  induction run with
  | start => simp
  | @step past place next c d move run step ih =>
    refine List.forall_mem_cons.mpr ⟨fun stream taken => ?_, ih⟩
    have kept := run.kept spawned
    obtain rfl : move = .event stream := taken
    cases step with
    | event now held came =>
      have tended : c.Tended := kept
      exact ⟨held, tended.held.mp (held ▸ rfl)⟩

/-- No event is taken in from a stream that was given up before. -/
theorem Run.spares (spawned : spawn config store network = .ok start)
    (run : Run start past place c) : past.Pairwise fun later earlier =>
      ∀ stream, earlier.Abandons stream → later.move ≠ .event stream := by
  induction run with
  | start => exact .nil
  | step run step ih =>
    refine .cons (fun turn member stream abandons => ?_) ih
    exact (GivenUp.step (run.kept spawned) (run.given_up spawned member abandons) step).2

/-- An upkeep is made of two parts. -/
theorem Run.upkeep (run : Run start past .due c) (done : c.upkeep = .ok d) :
    ∃ later, Run start (later ++ past) .waiting d := by
  unfold Client.upkeep at done
  cases kept : c.maintainStream c.ownTime with
  | error broken =>
    rw [kept] at done
    cases done
  | ok tended =>
    rw [kept] at done
    obtain rfl := Except.ok.inj done
    exact ⟨[⟨tended, .write⟩, ⟨c, .keep⟩], (run.step (.keep _ kept)).step (.write tended)⟩

/-- Where the loop comes to rest, it went through such a run. -/
theorem Run.runFor (run : Run start past .due c) (turns : Nat)
    (done : c.runFor turns = .ok d) : ∃ later, Run start (later ++ past) .waiting d := by
  induction turns generalizing past c with
  | zero => exact run.upkeep done
  | succ turns ih =>
    unfold Client.runFor at done
    cases upkeep : c.upkeep with
    | error broken =>
      rw [upkeep] at done
      cases done
    | ok middle =>
      rw [upkeep] at done
      obtain ⟨later, waits⟩ := run.upkeep upkeep
      have on {next : Client} {move : Move} (step : Step .waiting middle move .due next)
          (done : next.runFor turns = .ok d) : ∃ later, Run start (later ++ past) .waiting d := by
        obtain ⟨last, ran⟩ := ih (waits.step step) done
        exact ⟨last ++ ⟨middle, move⟩ :: later, by simpa using ran⟩
      dsimp only [bind, Except.bind] at done
      cases came : middle.nextEvent? middle.ownTime with
      | some outcome =>
        rw [came, Option.some_or] at done
        cases outcome with
        | error broken => cases done
        | ok next =>
          obtain ⟨stream, held, -⟩ := Option.bind_eq_some_iff.mp came
          exact on (.event _ held came) done
      | none =>
        rw [came, Option.none_or] at done
        cases elapsed : middle.wake? with
        | some next =>
          rw [elapsed] at done
          exact on (.alarm elapsed) done
        | none =>
          rw [elapsed] at done
          obtain rfl := Except.ok.inj done
          exact ⟨later, waits⟩

/-- A client that is left to itself comes to rest in agreement with its engine, if it does. -/
theorem Run.settle (spawned : spawn config store network = .ok start)
    (run : Run start past .due c) (done : c.settle = .ok d) : d.Agrees := by
  obtain ⟨later, waits⟩ := run.runFor c.turns done
  exact Tended.toAgrees (waits.kept spawned)

/-- In every run of the loop client and engine agree after each upkeep: the client holds a stream
    exactly if the engine's is connecting or open, it holds none without need, and where one is
    needed and missing a retry is set. In an upkeep the engine never refuses the stream that it is
    asked to begin, and the loop goes on unless a wait cannot be measured. While the network is
    disabled no stream is held. An event is taken in only from the stream that is held, while the
    engine has one, and never from a stream that was given up. -/
theorem client_and_engine_agree (spawned : spawn config store network = .ok start)
    (run : Run start past place c) :
    (place ≠ .due → c.Agrees) ∧
    (place = .due →
      (c.heedRestart.engine.shouldConnect = true → c.heedRestart.held = none →
        c.heedRestart.retryAt = none → c.heedRestart.engine.connect?.isSome = true) ∧
      ∀ now, c.Measures (c.engine.stream.backoff.recordFailure now).currentWait →
        ∃ d, c.maintainStream now = .ok d) ∧
    (Interrupted past → place ≠ .due → c.held = none) ∧
    (∀ turn ∈ past, ∀ stream, turn.move = .event stream →
      turn.before.held = some stream ∧ turn.before.engine.stream.state.isStarted = true) ∧
    past.Pairwise fun later earlier =>
      ∀ stream, earlier.Abandons stream → later.move ≠ .event stream := by
  have agrees : place ≠ .due → c.Agrees := fun upkept => by
    have kept := run.kept spawned
    cases place with
    | due => exact absurd rfl upkept
    | kept | waiting => exact Tended.toAgrees kept
  refine ⟨agrees, ?_, ?_, ?_, ?_⟩
  · rintro rfl
    have untended : c.Untended := run.kept spawned
    refine ⟨fun _ nothing _ => ?_, fun _ => maintainStream_ok⟩
    rw [untended.heedRestart.connect? nothing]
    rfl
  · intro interrupted upkept
    have disabled := run.disabled spawned interrupted
    cases held : c.held with
    | none => rfl
    | some stream =>
      have needed := (agrees upkept).needed (held ▸ rfl)
      cases disabled.symm.trans (enabled_of_needed needed)
  · exact run.events spawned
  · exact run.spares spawned

end Runs

/-- The client after an upkeep, whatever comes of it. -/
def upkept (c : Client) : Client :=
  match c.maintainStream .zero with
  | .ok d | .error d => d

theorem Step.upkept (done : (c.maintainStream .zero).isOk = true) :
    Step .due c .keep .kept c.upkept := by
  refine .keep .zero ?_
  unfold Client.upkept
  cases upkeep : c.maintainStream .zero with
  | ok d => rfl
  | error d => simp [upkeep, Except.isOk, Except.toBool] at done

/-- The upkeep is done, and what the engine wants written is written. -/
theorem Run.upkept {start : Client} {past : List Turn} (run : Run start past .due c)
    (done : (c.maintainStream .zero).isOk = true) :
    Run start (⟨c.upkept, .write⟩ :: ⟨c, .keep⟩ :: past) .waiting c.upkept.flush :=
  (run.step (.upkept done)).step (.write c.upkept)

/-- The client after the next event of its stream, whatever comes of it. -/
def informed (c : Client) (now : Duration) : Client :=
  match c.nextEvent? now with
  | some (.ok d) | some (.error d) => d
  | none => c

theorem Step.informed {stream : Nat} {now : Duration} (held : c.held = some stream)
    (came : (c.nextEvent? now).any (·.isOk) = true) :
    Step .waiting c (.event stream) .due (c.informed now) := by
  refine .event now held ?_
  unfold Client.informed
  cases next : c.nextEvent? now with
  | none => simp [next] at came
  | some outcome =>
    cases outcome with
    | ok d => rfl
    | error d => simp [next, Except.isOk, Except.toBool] at came

theorem Step.woken (passed : c.retryAt.any (· ≤ c.clock) = true) :
    Step .waiting c .alarm .due { c with retryAt := none } := by
  refine .alarm ?_
  obtain ⟨due, set, passed⟩ := (Option.any_eq_true _ _).mp passed
  rw [wake?, set]
  exact if_pos (of_decide_eq_true passed)

/-- A client over an empty store, before its first upkeep. -/
def newcomer : Client := { engine := .blank, network := {} }

/-- The client listens to a document while it has nothing else to do. -/
def listening : Client := (newcomer.upkept.flush.handle (.listen (.document ⟨"c/a"⟩))).2

/-- The client has opened a stream, and the server accepts requests. -/
def accepted : Client :=
  let c := listening.upkept.flush
  { c with network := (c.network.send 0 .opened).2 }

/-- Once the client has learned of it, the server drops its half without a word. -/
def abandoned : Client :=
  let c := (accepted.informed .zero).upkept.flush
  { c with network := c.network.dropServer 0 }

/-- After two minutes the client finds the stream gone. Its wait passes, but now no stream can be
    opened. -/
def unavailable : Client :=
  let c := (abandoned.informed (.ofSeconds 120)).upkept.flush
  { c with clock := 1000, network := { c.network with available := false } }

/-- The next stream fails, and the wait passes after which streams can be opened again. -/
def available : Client :=
  let c := { unavailable with retryAt := none }.upkept.flush
  { c with clock := 3000, network := { c.network with available := true } }

/-- The client has opened its second stream when its network is interrupted. -/
def interrupted : Client := (({ available with retryAt := none }.upkept.flush).handle .interrupt).2

/-- The run that leads there: one stream is dropped after it was open for long, the next cannot be
    opened, and the one after that is given up when the network is interrupted. -/
theorem run_to_interruption :
    ∃ past, Run newcomer past .kept interrupted.upkept ∧
      (past.map (·.move)).reverse = [.keep, .write, .command (.listen (.document ⟨"c/a"⟩)),
        .keep, .write, .rest, .event 0, .keep, .write, .rest, .event 0,
        .keep, .write, .rest, .alarm, .keep, .write, .rest, .alarm,
        .keep, .write, .command .interrupt, .keep] ∧
      Interrupted past := by
  have idle : Run newcomer _ .waiting _ := Run.start.upkept (by decide +kernel)
  have asked : Run newcomer _ .waiting listening.upkept.flush :=
    (idle.step (.command _ (.listen (.document ⟨"c/a"⟩)))).upkept (by decide +kernel)
  have first : Run newcomer _ .waiting accepted :=
    asked.step (.rest .waiting (.of_halves _ fun other => Network.half?_send _ 0 other .opened))
  have holds : accepted.held = some 0 := by decide +kernel
  have opened : Run newcomer _ .waiting (accepted.informed .zero).upkept.flush :=
    (first.step (.informed holds (by decide +kernel))).upkept (by decide +kernel)
  have dropped : Run newcomer _ .waiting abandoned :=
    opened.step (.rest .waiting (.of_halves _ fun other => Network.half?_dropServer _ 0 other))
  have still : abandoned.held = some 0 := by decide +kernel
  have lost : Run newcomer _ .waiting (abandoned.informed (.ofSeconds 120)).upkept.flush :=
    (dropped.step (.informed still (by decide +kernel))).upkept (by decide +kernel)
  have waited : Run newcomer _ .waiting unavailable :=
    lost.step (.rest .waiting (.of_halves _ fun other => Network.half?_available _ other false))
  have failed : Run newcomer _ .waiting { unavailable with retryAt := none }.upkept.flush :=
    (waited.step (.woken (by decide +kernel))).upkept (by decide +kernel)
  have again : Run newcomer _ .waiting available :=
    failed.step (.rest .waiting (.of_halves _ fun other => Network.half?_available _ other true))
  have second : Run newcomer _ .waiting { available with retryAt := none }.upkept.flush :=
    (again.step (.woken (by decide +kernel))).upkept (by decide +kernel)
  have run : Run newcomer _ .kept interrupted.upkept :=
    (second.step (.command _ .interrupt)).step (.upkept (by decide +kernel))
  exact ⟨_, run, rfl, .inr ⟨nofun, .inl rfl⟩⟩

/-- In that run the client and its engine come to agree, and the interrupted stream is dropped. -/
theorem interrupted_client_drops_stream :
    interrupted.held = some 1 ∧ interrupted.engine.stream.state = .closed ∧ ∃ start past,
      spawn Engine.blank.config {} {} = .ok start ∧ Run start past .kept interrupted.upkept ∧
      Interrupted past ∧ interrupted.upkept.Agrees ∧ interrupted.upkept.held = none := by
  have spawned : spawn Engine.blank.config {} {} = .ok newcomer := rfl
  obtain ⟨past, run, -, cut⟩ := run_to_interruption
  obtain ⟨agrees, -, dropped, -⟩ := client_and_engine_agree spawned run
  exact ⟨by decide +kernel, by decide +kernel, newcomer, past, spawned, run, cut, agrees nofun,
    dropped cut nofun⟩

end Client

end LiveQuery
