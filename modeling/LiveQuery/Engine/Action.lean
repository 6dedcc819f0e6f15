import LiveQuery.Engine.Listen
import LiveQuery.Engine.Watch

/-!
# Actions

Everything that can be asked of an engine. Every state of an engine is reached
from a new one by a list of actions.
-/

namespace LiveQuery

namespace Engine

/-- One call of an engine. Times are counted from the start of one clock. -/
inductive Action where
  | connect
  | handle (event : StreamEvent) (now : Duration)
  | listen (target : Target)
  | unlisten (listener : ListenerId)
  | submit (mutations : List Mutation)
  | takeOutbound
  | applyRemote (event : RemoteEvent)
  | interrupt
  | resume
  | disconnect
  | resync
  | takeRestart

/-- What a call returns. -/
inductive Reply where
  | done
  | flag (value : Bool)
  | wait (wait : Option Wait)
  | listener (id : ListenerId)
  | batch (id : BatchId)
  | requests (requests : List StreamRequest)
  | refused (fault : Fault)

/-- A call that may be refused, and then changes nothing. -/
def orRefuse (e : Engine) : Except Fault Engine → Reply × Engine
  | .ok e => (.done, e)
  | .error fault => (.refused fault, e)

/-- Makes one call. -/
def perform (e : Engine) : Action → Reply × Engine
  | .connect =>
    match e.connect? with
    | some e => (.flag true, e)
    | none => (.flag false, e)
  | .handle event now =>
    let (wait, e) := e.handle event now
    (.wait wait, e)
  | .listen target =>
    let (id, e) := e.listen target
    (.listener id, e)
  | .unlisten listener => e.orRefuse (e.unlisten listener)
  | .submit mutations =>
    match e.submit mutations with
    | (e, .ok id) => (.batch id, e)
    | (e, .error fault) => (.refused fault, e)
  | .takeOutbound =>
    let (requests, e) := e.takeOutbound
    (.requests requests, e)
  | .applyRemote event => e.orRefuse (e.applyRemote event)
  | .interrupt => (.done, e.interrupt)
  | .resume => (.done, e.resume)
  | .disconnect => (.done, e.disconnect)
  | .resync => (.done, e.resync)
  | .takeRestart =>
    let (requested, e) := e.takeRestart
    (.flag requested, e)

/-- Makes the calls of a list in order. -/
def run (e : Engine) (actions : List Action) : Engine :=
  actions.foldl (fun e action => (e.perform action).2) e

end Engine

end LiveQuery
