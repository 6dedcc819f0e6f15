import LiveQuery.Engine.State

/-!
# Listening

Listeners come and go. The first one of a target starts the subscription, and
the last one ends it.
-/

namespace LiveQuery

namespace Engine

/-- The server's replica to start a view with: the stored one, if there is one. -/
def startingServer (e : Engine) (t : Target) : Replica :=
  match e.store.loadView t with
  | .ok (some replicas) => { replicas.server with edition := e.nextEdition }
  | _ => .blank e.nextEdition

/-- Makes a view for a target unless there is one. -/
def ensureView (e : Engine) (id : TargetId) (t : Target) : Engine :=
  if e.views.contains id then e
  else
    let server := e.startingServer t
    let e := { e with nextEdition := e.nextEdition + 1 }
    e.overlay id { target := t, replicas := ⟨.blank server.edition, server⟩ }

/-- Adds a listener to the target of a view. -/
def attach (e : Engine) (id : TargetId) : ListenerId × Engine :=
  let listener : ListenerId := ⟨e.nextListener⟩
  (listener,
    { e with
      nextListener := e.nextListener + 1
      listeners := e.listeners.insert listener { target := id }
      views := e.views.modify id fun v => { v with listeners := v.listeners.insert listener } })

/-- Listens to a target. What is known of it is told at once, if it is complete. -/
def listen (e : Engine) (t : Target) : ListenerId × Engine :=
  let (id, stream) := e.stream.listen t
  let (listener, e) := ({ e with stream }.ensureView id t).attach id
  (listener, e.dispatch id)

/-- Ends the subscription of a view that lost its last listener. -/
def leave (e : Engine) (id : TargetId) : Engine :=
  let e := e.saveView id
  { e with stream := e.stream.unlisten id }.prune

/-- Removes a listener. -/
def unlisten (e : Engine) (listener : ListenerId) : Except Fault Engine :=
  match e.listeners[listener]? with
  | none => .error (.unknownListener listener)
  | some { target := id, .. } =>
    let e := { e with listeners := e.listeners.erase listener }
    match e.views[id]? with
    | none => .ok e
    | some view =>
      let listeners := view.listeners.erase listener
      let e := { e with views := e.views.insert id { view with listeners } }
      .ok (if listeners.isEmpty then e.leave id else e)

end Engine

end LiveQuery
