import LiveQuery.Proofs.SentSnapshots

/-!
# Histories

A history lists what an engine went through, the latest first, with the engine
that it befell. It keeps what the engine itself forgets: which reports came, and
in which order. The stream is sound all through a history, so what is current is
live, and a number that is given out and gone stays gone.
-/

namespace LiveQuery

/-- What can befall an engine. -/
inductive Happening where
  | call (action : Engine.Action)
  /-- A listener gives up its end of the line. -/
  | detach (id : ListenerId)
  /-- The store comes to hold something else. -/
  | restock (store : Store)

/-- The engine after something befell it. -/
def Engine.meet (e : Engine) : Happening → Engine
  | .call action => (e.perform action).2
  | .detach id => e.detach id
  | .restock store => { e with store }

/-- An engine and what befell it. -/
structure Moment where
  before : Engine
  happening : Happening

namespace Moment

def after (m : Moment) : Engine := m.before.meet m.happening

/-- A report of the server comes on an open stream. -/
def Brings (m : Moment) (change : WatchChange) : Prop :=
  ∃ action, m.happening = .call action ∧ Engine.Action.Brings m.before action change

/-- Word comes that a target is added. -/
def Adds (m : Moment) (t : TargetId) : Prop := ∃ change, m.Brings change ∧ change.Adds t

/-- Word comes that a target is complete. -/
def Completes (m : Moment) (t : TargetId) : Prop := ∃ change, m.Brings change ∧ change.Completes t

/-- A snapshot closes what was reported. -/
def Closes (m : Moment) : Prop := ∃ change, m.Brings change ∧ change.Closes

/-- A removal breaks after it released the target, and its listeners are told nothing. -/
def Strands (m : Moment) (t : TargetId) : Prop :=
  ∃ action, m.happening = .call action ∧ Engine.Action.Strands m.before action t

/-- A target that is current is removed without a cause. -/
def Dulls (m : Moment) (t : TargetId) : Prop :=
  ∃ action, m.happening = .call action ∧ Engine.Action.Dulls m.before action t

/-- One moment brings one report. -/
theorem Brings.same {m : Moment} {change other : WatchChange} (brings : m.Brings change)
    (again : m.Brings other) : change = other := by
  obtain ⟨action, here, -, now, rfl⟩ := brings
  obtain ⟨_, there, -, _, rfl⟩ := again
  cases here.symm.trans there
  rfl

end Moment

/-- History past e: the engine came to `e` through the moments of `past`, the latest first. -/
inductive History : List Moment → Engine → Prop
  | start {config : Config} {store : Store} {e : Engine}
    (read : Engine.ofStore config store = .ok e) : History [] e
  | step {past : List Moment} {e : Engine} (history : History past e) (happening : Happening) :
    History (⟨e, happening⟩ :: past) (e.meet happening)

/-- In some moment of the past `began` held, and in every later one `holds`. -/
def Since (holds : Moment → Prop) (began : Moment → List Moment → Prop) (past : List Moment) :
    Prop :=
  ∃ later m earlier, past = later ++ m :: earlier ∧ began m earlier ∧ ∀ n ∈ later, holds n

section Since

variable {holds : Moment → Prop} {began : Moment → List Moment → Prop} {m : Moment}
  {past : List Moment}

theorem Since.now (here : began m past) : Since holds began (m :: past) :=
  ⟨[], m, past, (List.nil_append _).symm, here,
    fun _ none_later => absurd none_later List.not_mem_nil⟩

theorem Since.still (since : Since holds began past) (here : holds m) :
    Since holds began (m :: past) := by
  obtain ⟨later, n, earlier, rfl, there, all⟩ := since
  exact ⟨m :: later, n, earlier, rfl, there, List.forall_mem_cons.mpr ⟨here, all⟩⟩

/-- What holds since some moment holds now, if it held in that moment already. -/
theorem Since.holds_now (since : Since holds began (m :: past))
    (start : ∀ m earlier, began m earlier → holds m) : holds m := by
  obtain ⟨later, n, earlier, split, here, all⟩ := since
  cases later with
  | nil =>
    obtain ⟨rfl, -⟩ := List.cons_eq_cons.mp split
    exact start m earlier here
  | cons first rest =>
    obtain ⟨rfl, -⟩ := List.cons_eq_cons.mp split
    exact all m List.mem_cons_self

end Since

/-- Whatever comes about has a history. -/
theorem Engine.Reachable.history {e : Engine} (reached : e.Reachable) :
    ∃ past, History past e := by
  induction reached with
  | start read => exact ⟨[], .start read⟩
  | perform _ action ih =>
    obtain ⟨past, history⟩ := ih
    exact ⟨_, history.step (.call action)⟩
  | detach _ id ih =>
    obtain ⟨past, history⟩ := ih
    exact ⟨_, history.step (.detach id)⟩
  | restock _ store ih =>
    obtain ⟨past, history⟩ := ih
    exact ⟨_, history.step (.restock store)⟩

/-- The moments of calls that are made one after the other, the latest first. -/
def Engine.moments (e : Engine) : List Engine.Action → List Moment
  | [] => []
  | action :: rest => (e.perform action).2.moments rest ++ [⟨e, .call action⟩]

theorem Engine.mem_moments {e : Engine} {actions : List Engine.Action} {m : Moment}
    (member : m ∈ e.moments actions) : ∃ action ∈ actions, m.happening = .call action := by
  induction actions generalizing e with
  | nil => cases member
  | cons action rest ih =>
    rcases List.mem_append.mp member with later | here
    · obtain ⟨other, among, same⟩ := ih later
      exact ⟨other, List.mem_cons_of_mem action among, same⟩
    · exact ⟨action, List.mem_cons_self, List.mem_singleton.mp here ▸ rfl⟩

/-- Calls extend a history by their moments. -/
theorem History.run {past : List Moment} {e : Engine} (history : History past e)
    (actions : List Engine.Action) : History (e.moments actions ++ past) (e.run actions) := by
  induction actions generalizing past e with
  | nil => exact history
  | cons action rest ih =>
    have later := ih (history.step (.call action))
    rw [Engine.moments, List.append_assoc]
    exact later

theorem history_blank : History [] Engine.blank :=
  have read : Engine.ofStore {} {} = .ok Engine.blank := rfl
  .start read

/-- What happens to the stream in a moment: only an addition makes a target live, only word that it
    is complete marks it, and only a snapshot makes it current. -/
theorem Moment.gains (m : Moment) (sound : m.before.stream.Sound) :
    m.after.stream.Sound ∧
      m.before.stream.Gains m.Adds m.Completes (fun t => m.Closes ∧ m.before.stream.Marked t)
        m.after.stream := by
  have fades {after : WatchStream} (done : after.Sound ∧ m.before.stream.Fades after) :
      after.Sound ∧ m.before.stream.Gains m.Adds m.Completes
        (fun t => m.Closes ∧ m.before.stream.Marked t) after :=
    ⟨done.1, done.2.widen (fun _ => False.elim) (fun _ => False.elim) fun _ => False.elim⟩
  obtain ⟨e, happening⟩ := m
  cases happening with
  | detach id => exact fades ⟨sound, .refl e.stream⟩
  | restock store => exact fades ⟨sound, .refl e.stream⟩
  | call action =>
    rcases e.stream_perform action with same | turn | ⟨change, brings, taken⟩
    · rw [after, Engine.meet, same]
      exact fades ⟨sound, .refl e.stream⟩
    · exact fades (turn.fades sound)
    · have here : Moment.Brings ⟨e, .call action⟩ change := ⟨action, rfl, brings⟩
      obtain ⟨received, gains⟩ := WatchStream.gains_receive sound change
      have gains : e.stream.Gains (Moment.Adds ⟨e, .call action⟩)
          (Moment.Completes ⟨e, .call action⟩)
          (fun t => Moment.Closes ⟨e, .call action⟩ ∧ e.stream.Marked t)
          (e.stream.receive change).1 :=
        gains.widen (fun _ adds => ⟨change, here, adds⟩)
          (fun _ completes => ⟨change, here, completes⟩)
          fun _ closes => ⟨⟨change, here, closes.1⟩, closes.2⟩
      rcases taken with same | restarted
      · rw [after, Engine.meet, same]
        exact ⟨received, gains⟩
      · obtain ⟨last, lost⟩ := WatchStream.Turn.fades (.restart _) received
        rw [after, Engine.meet, restarted]
        exact ⟨last, gains.trans
          (lost.widen (fun _ => False.elim) (fun _ => False.elim) fun _ => False.elim)⟩

namespace History

variable {past : List Moment} {e : Engine}

theorem reachable (history : History past e) : e.Reachable := by
  induction history with
  | start read => exact .start read
  | step _ happening ih =>
    cases happening with
    | call action => exact ih.perform action
    | detach id => exact ih.detach id
    | restock store => exact ih.restock store

/-- The stream is sound at any time. -/
theorem sound (history : History past e) : e.stream.Sound := by
  induction history with
  | start read =>
    obtain ⟨pending, rfl⟩ := Engine.ofStore_eq read
    exact WatchStream.sound_ofConfig _
  | step _ happening ih => exact (Moment.gains ⟨_, happening⟩ ih).1

end History

end LiveQuery
