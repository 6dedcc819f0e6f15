import LiveQuery.Proofs.FifoExchange
import LiveQuery.Proofs.SubscriptionNames

/-!
# The law of the exchange

Who is listened to is decided by the calls alone. A call to listen answers with the number of
its target and a call to leave names one, and nothing that the server answers, loses or takes
up again starts or ends any listening. The client keeps one flag for it in each entry, and the
flags stay in step with the calls. So what a call asks for depends on the calls before it and
on whether there is a stream.
-/

namespace LiveQuery

open Std

namespace Subscriptions

/-- Listening asks once for a target that nobody listens to, if there is a stream to ask on. -/
theorem outbox_listen {s : Subscriptions} (numbered : s.Numbered) (t : Target) :
    ∃ sub, (s.listen t).2.table[(s.listen t).1]? = some sub ∧ sub.id = (s.listen t).1 ∧
      (s.listen t).2.outbox = s.outbox ++
        if s.streamOpen = true ∧ ¬s.table[(s.listen t).1]?.any (·.listening) = true
        then [sub.addRequest] else [] := by
  rcases listen_cases numbered t with ⟨id, sub, entered, heard, same⟩ |
      ⟨id, sub, entered, unheard, made⟩ | ⟨-, made⟩
  · rw [same]
    exact ⟨sub, entered, (numbered id sub entered).1, by simp [entered, heard]⟩
  · obtain rfl := (numbered id sub entered).1
    rw [made]
    refine ⟨s.started (resumed sub), (s.table_start _ _).trans (if_pos rfl), s.id_started _, ?_⟩
    simp [Subscription.addRequest, entered, unheard]
  · rw [made]
    refine ⟨s.started (s.fresh t), (s.table_subscribe t _).trans (if_pos rfl), s.id_started _, ?_⟩
    have unused : s.table[(s.subscribe t).1]? = none := numbered.unused
    rw [outbox_subscribe, unused]
    simp [Subscription.addRequest, fresh]

/-- To leave a target that is listened to asks once for its removal, if there is a stream. -/
theorem outbox_unlisten (s : Subscriptions) (id : TargetId) :
    (s.unlisten id).outbox = s.outbox ++
      if s.streamOpen = true ∧ s.table[id]?.any (·.listening) = true
      then [.remove id] else [] := by
  rcases s.unlisten_cases id with
    ⟨same, unheard⟩ | ⟨sub, entered, heard, ⟨closed, gone⟩ | ⟨opened, kept⟩⟩
  · have nobody : s.table[id]?.any (·.listening) = false := by
      rw [Option.any_eq_false]
      exact fun sub entered => by simpa using unheard sub entered
    rw [same, nobody]
    simp
  · rw [gone, outbox_release]
    simp [closed]
  · rw [kept]
    simp [opened, entered, heard]

end Subscriptions

namespace Exchange

/-- Who is listened to after one more move. -/
def heardAfter (x : Exchange) (heard : ExtTreeSet TargetId) : ExchangeMove → ExtTreeSet TargetId
  | .listen t => heard.insert (x.client.listen t).1
  | .unlisten id => heard.erase id
  | _ => heard

/-- Who is listened to after moves in order. -/
def heardFrom (x : Exchange) (heard : ExtTreeSet TargetId) :
    List ExchangeMove → ExtTreeSet TargetId
  | [] => heard
  | move :: rest => (x.step move).heardFrom (x.heardAfter heard move) rest

/-- The targets that somebody listens to after all moves of an exchange, by the calls among
    them. -/
def heardBy (moves : List ExchangeMove) : ExtTreeSet TargetId := heardFrom {} ∅ moves

/-- The flags of the client tell who is listened to. -/
def Hears (x : Exchange) (heard : ExtTreeSet TargetId) : Prop :=
  ∀ id : TargetId, (x.client.get? id).any (·.listening) = heard.contains id

theorem Hears.listened {x : Exchange} {heard : ExtTreeSet TargetId} (hears : x.Hears heard)
    (id : TargetId) : x.client.table[id]?.any (·.listening) = true ↔ id ∈ heard := by
  rw [ExtTreeSet.mem_iff_contains, ← hears id, Subscriptions.get?]

section Moves

variable {x : Exchange} {heard : ExtTreeSet TargetId}

/-- No answer starts or ends any listening. -/
theorem Hears.deliver (sound : x.Sound) (hears : x.Hears heard) :
    (x.step .deliver).Hears heard := by
  cases next : x.answers with
  | nil => simpa [step, next] using hears
  | cons answer rest =>
    obtain ⟨entry, replaced, -, -, same⟩ := sound.taken next
    intro id
    simp only [step, next]
    rw [Subscriptions.get?, replaced.table]
    split
    case isTrue here => rw [same, here]; exact hears id
    case isFalse => exact hears id

/-- Every move keeps flags and calls in step. -/
theorem Hears.step (sound : x.Sound) (hears : x.Hears heard) (move : ExchangeMove) :
    (x.step move).Hears (x.heardAfter heard move) := by
  cases move with
  | listen t =>
    obtain ⟨next, edited, -, -, listening, -⟩ := Subscriptions.listen_edited sound.numbered t
    intro id
    change ((x.client.listen t).2.table[id]?).any _ = _
    rw [edited.table, heardAfter, ExtTreeSet.contains_insert, ← hears id,
      LawfulBEqOrd.compare_beq_eq_beq]
    split
    case isTrue here => simp [here, listening]
    case isFalse other =>
      rw [beq_false_of_ne other]
      rfl
  | unlisten gone =>
    obtain ⟨entry, edited, unheard⟩ := Subscriptions.unlisten_edited sound.numbered gone
    have nobody : entry.any (·.listening) = false := by
      rw [Option.any_eq_false]
      exact fun next here => by simpa using (unheard next here).1
    intro id
    change ((x.client.unlisten gone).table[id]?).any _ = _
    rw [edited.table, heardAfter, ExtTreeSet.contains_erase, ← hears id, bne,
      LawfulBEqOrd.compare_beq_eq_beq]
    split
    case isTrue here => simp [here, nobody]
    case isFalse other =>
      rw [beq_false_of_ne other]
      rfl
  | write => exact hears
  | answer =>
    have same : (x.step .answer).client = x.client := by
      unfold Exchange.step
      dsimp only
      split <;> rfl
    rw [Hears, same]
    exact hears
  | deliver => exact hears.deliver sound
  | close =>
    intro id
    change (x.client.streamClosed.table[id]?).any _ = heard.contains id
    rw [← hears id, Subscriptions.get?, Subscriptions.table_streamClosed, Option.any_map]
    cases x.client.table[id]? with
    | none => rfl
    | some sub => cases listening : sub.listening <;> simp [listening, Subscription.settled]
  | reopen =>
    unfold Exchange.step
    dsimp only
    split
    case isTrue => exact hears
    case isFalse =>
      intro id
      change (x.client.streamOpened.table[id]?).any _ = heard.contains id
      rw [← hears id, Subscriptions.get?, Subscriptions.table_streamOpened, Option.any_map]
      rfl

/-- An answer enters no target. -/
theorem thins_takeIn {client : Subscriptions} (numbered : client.Numbered) (answer : Answer) :
    client.Thins (takeIn client answer) := by
  unfold takeIn
  cases answer with
  | added id =>
    dsimp only
    split
    case h_1 done =>
      obtain ⟨sub, entered, -, rfl⟩ := Subscriptions.added_cases done
      exact Subscriptions.thins_put entered (numbered id sub entered).1 rfl rfl fun heard => heard
    case h_2 => exact .refl client
  | removed id =>
    dsimp only
    split
    case h_1 done => exact Subscriptions.thins_removed numbered done
    case h_2 => exact .refl client

/-- Every move keeps the names. -/
theorem Sound.named (sound : x.Sound) (named : x.client.Named) (move : ExchangeMove) :
    (x.step move).client.Named := by
  cases move with
  | listen t => exact Subscriptions.named_listen sound.numbered named t
  | unlisten id => exact (Subscriptions.thins_unlisten sound.numbered id).named named
  | write => exact named
  | answer =>
    unfold Exchange.step
    dsimp only
    split <;> exact named
  | deliver =>
    unfold Exchange.step
    dsimp only
    split
    case h_1 => exact named
    case h_2 answer rest _ => exact (thins_takeIn sound.numbered answer).named named
  | close => exact x.client.thins_streamClosed.named named
  | reopen =>
    unfold Exchange.step
    dsimp only
    split
    · exact named
    · exact x.client.thins_streamOpened.named named

end Moves

/-- In the beginning no name is known, and nobody listens. -/
theorem named_start : Subscriptions.Named {} := by
  intro name id
  simp [Subscriptions.nameOf]

theorem hears_start : Hears {} ∅ := by
  intro id
  simp [Subscriptions.get?]

theorem Sound.named_run {x : Exchange} (sound : x.Sound) (named : x.client.Named)
    (moves : List ExchangeMove) : (moves.foldl Exchange.step x).client.Named := by
  induction moves generalizing x with
  | nil => exact named
  | cons move rest ih => exact ih (sound.step move) (sound.named named move)

theorem Sound.hears_run {x : Exchange} {heard : ExtTreeSet TargetId} (sound : x.Sound)
    (hears : x.Hears heard) (moves : List ExchangeMove) :
    (moves.foldl Exchange.step x).Hears (x.heardFrom heard moves) := by
  induction moves generalizing x heard with
  | nil => exact hears
  | cons move rest ih => exact ih (sound.step move) (hears.step sound move)

/-- Listening asks once for what nobody listens to by the calls so far. -/
theorem Hears.outbox_listen {x : Exchange} {heard : ExtTreeSet TargetId} (hears : x.Hears heard)
    (sound : x.Sound) (named : x.client.Named) (t : Target) :
    ∃ sub, (x.client.listen t).2.get? (x.client.listen t).1 = some sub ∧
      sub.target.canonicalId = t.canonicalId ∧
      (x.client.listen t).2.outbox = x.client.outbox ++
        if x.client.streamOpen = true ∧ (x.client.listen t).1 ∉ heard
        then [.add (x.client.listen t).1 sub.target sub.token] else [] := by
  obtain ⟨sub, entered, own, asked⟩ := Subscriptions.outbox_listen sound.numbered t
  have name := Subscriptions.nameOf_listen sound.numbered named t
  rw [Subscriptions.nameOf, entered, Option.map_some] at name
  refine ⟨sub, entered, Option.some.inj name, ?_⟩
  simp only [asked, hears.listened, Subscription.addRequest, own]

/-- The law of the exchange, after any moves. The unanswered additions of every target are counted.
    The next addition to be taken in is accepted, and activates its target exactly if it is the
    last one under way and somebody listens. The next removal to be taken in is accepted, asks for
    nothing, and releases its target exactly if it is the last answer under way and nobody
    listens. And whenever nothing is under way on a stream, every entry is active, and the server
    watches the entered targets and no others.

    Somebody listens to the targets that were listened to and not left since, whatever else came
    to pass. To listen to another one on an open stream asks once to add it, and to leave one asks
    once to remove it. Nothing else that is called to listen or to leave asks for anything. -/
theorem exchange_law (moves : List ExchangeMove) :
    let x := run moves
    let heard := heardBy moves
    (∀ id : TargetId,
      (x.client.get? id).elim 0 (·.adds) = x.outstanding.count (.added id)) ∧
    (∀ id rest, x.answers = .added id :: rest →
      ∃ sub outcome after, x.client.get? id = some sub ∧
        x.client.added id = .ok (outcome, after) ∧
        ((∃ reset, outcome = .activated reset) ↔
          sub.listening = true ∧ x.outstanding.count (.added id) = 1)) ∧
    (∀ id rest, x.answers = .removed id :: rest →
      ∃ sub outcome after, x.client.get? id = some sub ∧
        x.client.removed id none = .ok (outcome, after) ∧ outcome ≠ .readded ∧
        (outcome = .released ↔
          sub.listening = false ∧ x.outstanding.countP (·.target == id) = 1)) ∧
    (x.client.streamOpen = true → x.outstanding = [] → ∀ id : TargetId,
      x.client.isActive id = x.client.contains id ∧
        x.watched.contains id = x.client.contains id) ∧
    (∀ id : TargetId, (x.client.get? id).any (·.listening) = heard.contains id) ∧
    (∀ t, ∃ sub, (x.client.listen t).2.get? (x.client.listen t).1 = some sub ∧
      sub.target.canonicalId = t.canonicalId ∧
      (x.client.listen t).2.outbox = x.client.outbox ++
        if x.client.streamOpen = true ∧ (x.client.listen t).1 ∉ heard
        then [.add (x.client.listen t).1 sub.target sub.token] else []) ∧
    ∀ id : TargetId, (x.client.unlisten id).outbox = x.client.outbox ++
      if x.client.streamOpen = true ∧ id ∈ heard then [.remove id] else [] := by
  intro x heard
  have sound : x.Sound := sound_run moves
  have named : x.client.Named := sound_start.named_run named_start moves
  have hears : x.Hears heard := sound_start.hears_run hears_start moves
  refine ⟨sound.count_added, fun _ _ => sound.added_next, fun _ _ => sound.removed_next,
    sound.at_rest, hears, hears.outbox_listen sound named, fun id => ?_⟩
  simp only [Subscriptions.outbox_unlisten, hears.listened]

end Exchange

end LiveQuery
